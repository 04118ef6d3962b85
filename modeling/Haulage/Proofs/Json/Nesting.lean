import Haulage.Proofs.Json.Regular
import Haulage.Proofs.Json.Texts

/-!
# Values read back

A value that was read is read back from its compact form, up to its real numbers, if it nests no
deeper than the reader allows. If it does, the reader refuses it for that reason and for no other.

- `Value.depth`, `Value.Readable.depth_le`: how deep a value nests, and that a reader
  keeps to its limit.
- `Value.Alike`: values that are the same up to their real numbers.
- `rereads_value`: what comes of reading a printed value.
- `read_compact_iff`: which printed values are read back.
-/

set_option autoImplicit false

namespace Haulage.Json

open Haulage.Numeric

/-! ## Depth and likeness -/

namespace Value

mutual
/-- How deep arrays and objects nest in a value. -/
def depth : Value → Nat
  | .array items => itemsDepth items + 1
  | .object members => membersDepth members + 1
  | _ => 0
/-- How deep the items of an array nest. -/
def itemsDepth : List Value → Nat
  | [] => 0
  | v :: vs => max (depth v) (itemsDepth vs)
/-- How deep the members of an object nest. -/
def membersDepth : List (String × Value) → Nat
  | [] => 0
  | (_, v) :: ms => max (depth v) (membersDepth ms)
end

theorem itemsDepth_le {vs : List Value} {n : Nat} (h : ∀ v ∈ vs, v.depth ≤ n) :
    itemsDepth vs ≤ n := by
  induction vs with
  | nil => exact Nat.zero_le n
  | cons v vs ih =>
      rw [List.forall_mem_cons] at h
      exact Nat.max_le.mpr ⟨h.1, ih h.2⟩

theorem membersDepth_le {ms : Members} {n : Nat} (h : ∀ m ∈ ms, Value.depth m.2 ≤ n) :
    membersDepth ms ≤ n := by
  induction ms with
  | nil => exact Nat.zero_le n
  | cons m ms ih =>
      rw [List.forall_mem_cons] at h
      exact Nat.max_le.mpr ⟨h.1, ih h.2⟩

/-- What is read nests no deeper than the reader allows. -/
theorem Readable.depth_le {allowed : Nat} {v : Value} (h : Readable allowed v) :
    v.depth ≤ allowed := by
  induction h with
  | array h ih => exact Nat.succ_le_succ (itemsDepth_le ih)
  | object distinct h ih => exact Nat.succ_le_succ (membersDepth_le ih)
  | _ => exact Nat.zero_le _

mutual
/-- Two values that are the same up to their real numbers. -/
inductive Alike : Value → Value → Prop
  | null : Alike .null .null
  | bool (b : Bool) : Alike (.bool b) (.bool b)
  | number {m n : Number} (h : m.Alike n) : Alike (.number m) (.number n)
  | string (s : String) : Alike (.string s) (.string s)
  | array {vs ws : List Value} (h : AlikeItems vs ws) : Alike (.array vs) (.array ws)
  | object {ms ns : List (String × Value)}
      (h : AlikeMembers ms ns) : Alike (.object ms) (.object ns)
/-- The items of two such arrays. -/
inductive AlikeItems : List Value → List Value → Prop
  | nil : AlikeItems [] []
  | cons {v w : Value} {vs ws : List Value} (head : Alike v w) (tail : AlikeItems vs ws) :
      AlikeItems (v :: vs) (w :: ws)
/-- The members of two such objects. -/
inductive AlikeMembers : List (String × Value) → List (String × Value) → Prop
  | nil : AlikeMembers [] []
  | cons {v w : Value} {ms ns : List (String × Value)} (key : String) (head : Alike v w)
      (tail : AlikeMembers ms ns) : AlikeMembers ((key, v) :: ms) ((key, w) :: ns)
end

variable {v w : Value} {ms ns : Members}

/-- Such objects bind the same keys to such values. -/
theorem AlikeMembers.get? (h : AlikeMembers ms ns) {key : String}
    (hv : Members.get? ms key = some v) :
    ∃ w, Members.get? ns key = some w ∧ Alike v w := by
  induction ms generalizing ns with
  | nil => cases hv
  | cons m rest ih =>
      cases h with
      | cons k head tail =>
          rw [Members.get?_cons] at hv
          rw [Members.get?_cons]
          split at hv
          · rename_i hk
            rw [if_pos hk]
            exact ⟨_, rfl, Option.some.inj hv ▸ head⟩
          · rename_i hk
            rw [if_neg hk]
            exact ih tail hv

/-- A value that is neither nested nor a real number is like itself only. -/
theorem Alike.eq_of_exact (h : Alike v w) (hflat : v.depth = 0)
    (hreal : ∀ x, v ≠ .number (.real x)) :
    w = v := by
  cases h with
  | null => rfl
  | bool b => rfl
  | string s => rfl
  | @number m n halike =>
      cases m with
      | real x => exact absurd rfl (hreal x)
      | integer i =>
          cases n with
          | integer j => rw [show i = j from halike]
          | real x => exact halike.elim
  | array h => cases hflat
  | object h => cases hflat

end Value

/-! ## Reading back -/

section Reading

variable {rest : List Char} {fuel allowed : Nat}

/-! ### Tokens -/

theorem exists_readWord (word rest : List Char) (place : Position) :
    ∃ after, readWord word ⟨word ++ rest, place⟩ = .ok ⟨rest, after⟩ := by
  induction word generalizing place with
  | nil => exact ⟨place, rfl⟩
  | cons c more ih =>
      obtain ⟨after, hmore⟩ := ih (place.after c)
      refine ⟨after, ?_⟩
      rw [List.cons_append, readWord]
      simp only [if_true]
      exact hmore

/-- The words are read back. -/
theorem takes_readValue_null : Takes (readValue (fuel + 1) allowed) ['n', 'u', 'l', 'l'] .null := by
  intro rest place
  obtain ⟨after, hword⟩ := exists_readWord ['u', 'l', 'l'] rest (place.after 'n')
  refine ⟨after, ?_⟩
  rw [List.cons_append, readValue, skipGap_cons (c := 'n') rfl]
  simp only [if_true, Cursor.advance, hword]
  rfl

theorem takes_readValue_bool (b : Bool) :
    Takes (readValue (fuel + 1) allowed) (Value.bool b).compactChars (.bool b) := by
  intro rest place
  cases b with
  | true =>
      obtain ⟨after, hword⟩ := exists_readWord ['r', 'u', 'e'] rest (place.after 't')
      refine ⟨after, ?_⟩
      rw [Value.compactChars, List.cons_append, readValue, skipGap_cons (c := 't') rfl]
      simp only [Char.reduceEq, if_false, if_true, Cursor.advance, hword]
      rfl
  | false =>
      obtain ⟨after, hword⟩ := exists_readWord ['a', 'l', 's', 'e'] rest (place.after 'f')
      refine ⟨after, ?_⟩
      rw [Value.compactChars, List.cons_append, readValue, skipGap_cons (c := 'f') rfl]
      simp only [Char.reduceEq, if_false, if_true, Cursor.advance, hword]
      rfl

theorem readValue_bracket (rest : List Char) (place : Position) :
    readValue (fuel + 1) (allowed + 1) ⟨'[' :: rest, place⟩ =
      readItems fuel allowed [] ⟨rest, place.after '['⟩ := by
  rw [readValue, skipGap_cons (c := '[') rfl]
  rfl

theorem readValue_brace (rest : List Char) (place : Position) :
    readValue (fuel + 1) (allowed + 1) ⟨'\x7b' :: rest, place⟩ =
      readMembers fuel allowed true [] ⟨rest, place.after '\x7b'⟩ := by
  rw [readValue, skipGap_cons (c := '\x7b') rfl]
  rfl

/-- At the deepest level no bracket of either kind opens. -/
theorem readValue_tooDeep {c : Char} (hc : c = '[' ∨ c = '\x7b') (rest : List Char)
    (place : Position) :
    ∃ after, readValue (fuel + 1) 0 ⟨c :: rest, place⟩ = .error ⟨.tooDeep, after⟩ := by
  refine ⟨Cursor.ahead ⟨c :: rest, place⟩, ?_⟩
  rcases hc with rfl | rfl
  · rw [readValue, skipGap_cons (c := '[') rfl]
    rfl
  · rw [readValue, skipGap_cons (c := '\x7b') rfl]
    rfl

/-- A printed value starts with a token, and not with one that closes an array. -/
structure Opens (chars : List Char) : Prop where
  starts : ∃ c more, chars = c :: more ∧ Cursor.isGap c = false ∧ c ≠ ']'

theorem exists_nextItem_first {chars : List Char} (h : Opens chars) (place : Position) :
    nextItem true ⟨chars, place⟩ = .ok (.item ⟨chars, place⟩) := by
  obtain ⟨c, more, rfl, hgap, hc⟩ := h.starts
  rw [nextItem, skipGap_cons hgap]
  simp only [if_neg hc, if_true]

theorem exists_nextItem_comma {chars : List Char} (h : Opens chars) (place : Position) :
    ∃ after, nextItem false ⟨',' :: chars, place⟩ = .ok (.item ⟨chars, after⟩) := by
  obtain ⟨c, more, rfl, hgap, hc⟩ := h.starts
  refine ⟨place.after ',', ?_⟩
  rw [nextItem, skipGap_cons (c := ',') rfl]
  simp only [Char.reduceEq, Bool.false_eq_true, if_false, if_true, Cursor.advance,
    skipGap_cons hgap, if_neg hc]

theorem exists_nextItem_done (first : Bool) (rest : List Char) (place : Position) :
    ∃ after, nextItem first ⟨']' :: rest, place⟩ = .ok (.done ⟨rest, after⟩) := by
  refine ⟨place.after ']', ?_⟩
  rw [nextItem, skipGap_cons (c := ']') rfl]
  rfl

theorem starts_numberChars {n : Number} (h : n.IsRegular) :
    ∃ c more, n.chars = c :: more ∧ (c = '-' ∨ isDecimalDigit c = true) := by
  cases n with
  | integer i =>
      rw [Number.chars]
      split
      · exact ⟨'-', _, rfl, .inl rfl⟩
      · obtain ⟨c, more, hcons⟩ := (isWhole_decimalChars i.natAbs).exists_cons
        refine ⟨c, more, hcons, .inr ?_⟩
        exact isDecimalDigit_of_mem_decimalChars i.natAbs c
          (by rw [hcons]; exact List.mem_cons_self)
  | real x =>
      cases x with
      | nan => exact h.elim
      | infinity negative => exact h.elim
      | finite negative units =>
          rw [Number.chars]
          split
          · exact ⟨'-', _, rfl, .inl rfl⟩
          · split
            · exact ⟨'0', _, rfl, .inr rfl⟩
            · rename_i hne
              -- what is read back as a number starts with a digit
              obtain ⟨_, _, hread⟩ := givesReal_realChars ⟨1, 0⟩ false
                (scalesBack_shortest (Nat.pos_of_ne_zero hne) h) closes_nil
              obtain ⟨c, more, hcons, hc⟩ := exists_digit_of_readNumber hread
              rw [List.append_nil] at hcons
              exact ⟨c, more, hcons, .inr hc⟩

theorem opens_of_digit {c : Char} (hc : c = '-' ∨ isDecimalDigit c = true) (more : List Char) :
    Opens (c :: more) := by
  refine ⟨c, more, rfl, ?_, ?_⟩
  · rcases hc with rfl | hc
    · rfl
    · have hne : ∀ d, isDecimalDigit d = false → c ≠ d := by
        rintro d hd rfl
        rw [hc] at hd
        cases hd
      simp only [Cursor.isGap, Bool.or_eq_false_iff, beq_eq_false_iff_ne]
      exact ⟨⟨⟨hne _ rfl, hne _ rfl⟩, hne _ rfl⟩, hne _ rfl⟩
  · rintro rfl
    rcases hc with hc | hc <;> cases hc

/-- What a value starts with, whatever follows it. -/
theorem opens_compactChars {v : Value} (h : v.IsRegular) (rest : List Char) :
    Opens (v.compactChars ++ rest) := by
  have hother : ∀ c more, Cursor.isGap c = false → c ≠ ']' → Opens (c :: more) :=
    fun c more hgap hc => ⟨c, more, rfl, hgap, hc⟩
  cases h with
  | null => exact hother _ _ rfl (by decide)
  | bool b => cases b <;> exact hother _ _ rfl (by decide)
  | number h =>
      obtain ⟨c, more, hcons, hc⟩ := starts_numberChars h
      rw [Value.compactChars, hcons]
      exact opens_of_digit hc _
  | string s => exact hother _ _ rfl (by decide)
  | @array items h => cases items <;> exact hother _ _ rfl (by decide)
  | @object members distinct h =>
      cases members with
      | nil => exact hother _ _ rfl (by decide)
      | cons m rest => exact hother _ _ rfl (by decide)

/-! ### Values -/

/-- What comes of reading back something that nests to a depth: something good, or a refusal because
it nests deeper than allowed. -/
inductive Rereads (depth allowed : Nat) (good : Value → Prop) (rest : List Char)
    (r : Reading Value) : Prop
  | back (w : Value) (after : Position) (shallow : depth ≤ allowed)
      (reads : r = .ok (w, ⟨rest, after⟩))
      (like : good w)
  | tooDeep (place : Position) (deep : allowed < depth) (fails : r = .error ⟨.tooDeep, place⟩)

theorem Rereads.of_takes {v : Value} {fuel allowed : Nat} {rest : List Char} {place : Position}
    (hdepth : v.depth = 0) (h : Takes (readValue fuel allowed) v.compactChars v)
    (halike : v.Alike v) :
    Rereads v.depth allowed v.Alike rest
      (readValue fuel allowed ⟨v.compactChars ++ rest, place⟩) := by
  obtain ⟨after, hread⟩ := h rest place
  exact .back v after (by omega) hread halike

theorem closes_compactItems (vs : List Value) (rest : List Char) :
    Closes (Value.compactItems vs ++ rest) := by
  cases vs with
  | nil => exact closes_cons (.inr (.inl rfl)) _
  | cons v vs => exact closes_cons (.inl rfl) _

theorem closes_compactMembers (ms : List (String × Value)) (rest : List Char) :
    Closes (Value.compactMembers ms ++ rest) := by
  cases ms with
  | nil => exact closes_cons (.inr (.inr rfl)) _
  | cons m ms =>
      obtain ⟨k, v⟩ := m
      exact closes_cons (.inl rfl) _

theorem Members.set_of_not_mem {members : Members} {key : String} (h : key ∉ members.keys)
    (value : Value) :
    members.set key value = members ++ [(key, value)] := by
  induction members with
  | nil => rfl
  | cons m rest ih =>
      obtain ⟨k, v⟩ := m
      rw [Members.keys_cons, List.mem_cons, not_or] at h
      rw [Members.set, if_neg (Ne.symm h.1), ih h.2, List.cons_append]

theorem length_compactChars_pos {v : Value} (h : v.IsRegular) : 0 < v.compactChars.length := by
  obtain ⟨c, more, hcons, -, -⟩ := (opens_compactChars h []).starts
  rw [List.append_nil] at hcons
  rw [hcons]
  exact Nat.succ_pos _

theorem length_compactItems_pos (vs : List Value) : 0 < (Value.compactItems vs).length := by
  cases vs with
  | nil => exact Nat.succ_pos _
  | cons v vs => exact Nat.succ_pos _

theorem length_compactMembers_pos (ms : List (String × Value)) :
    0 < (Value.compactMembers ms).length := by
  cases ms with
  | nil => exact Nat.succ_pos _
  | cons m ms =>
      obtain ⟨k, v⟩ := m
      exact Nat.succ_pos _

theorem exists_bracket (vs : List Value) : ∃ more, (Value.array vs).compactChars = '[' :: more := by
  cases vs with
  | nil => exact ⟨_, rfl⟩
  | cons v vs => exact ⟨_, rfl⟩

theorem exists_brace (ms : List (String × Value)) :
    ∃ more, (Value.object ms).compactChars = '\x7b' :: more := by
  cases ms with
  | nil => exact ⟨_, rfl⟩
  | cons m ms => exact ⟨_, rfl⟩

/-- An object is printed member by member, each of them headed by its key. -/
theorem compactChars_object_cons (key : String) (w : Value) (ms : List (String × Value)) :
    (Value.object ((key, w) :: ms)).compactChars =
      '\x7b' :: (memberHead true [] key ++ w.compactChars ++ Value.compactMembers ms) := by
  rw [Value.compactChars]
  simp [memberHead, memberLead]

theorem compactMembers_cons (key : String) (w : Value) (ms : List (String × Value)) :
    Value.compactMembers ((key, w) :: ms) =
      memberHead false [] key ++ w.compactChars ++ Value.compactMembers ms := by
  rw [Value.compactMembers]
  simp [memberHead, memberLead]

theorem length_memberHead_pos (first : Bool) (key : String) :
    0 < (memberHead first [] key).length := by
  rw [memberHead, List.length_append, List.length_append, List.length_singleton]
  omega

/-- The first of several things nests too deep, or the others decide. -/
theorem Rereads.cons {headDepth tailDepth : Nat} {headGood good : Value → Prop}
    {between : List Char} {first r : Reading Value}
    (hhead : Rereads headDepth allowed headGood between first)
    (hfails : ∀ e, first = .error e → r = .error e)
    (htail : ∀ w after, first = .ok (w, ⟨between, after⟩) → headGood w →
      Rereads tailDepth allowed good rest r) :
    Rereads (max headDepth tailDepth) allowed good rest r := by
  cases hhead with
  | tooDeep place deep fails => exact .tooDeep place (by omega) (hfails _ fails)
  | back w after shallow reads like =>
      cases htail w after reads like with
      | tooDeep place deep fails => exact .tooDeep place (by omega) fails
      | back u behind shallow' reads' like' => exact .back u behind (by omega) reads' like'

/-- A bracket takes one level of the nesting that is allowed. -/
theorem Rereads.succ {depth : Nat} {good wrapped : Value → Prop} {r : Reading Value}
    (h : Rereads depth allowed good rest r) (hgood : ∀ w, good w → wrapped w) :
    Rereads (depth + 1) (allowed + 1) wrapped rest r := by
  cases h with
  | tooDeep place deep fails => exact .tooDeep place (by omega) fails
  | back w after shallow reads like => exact .back w after (by omega) reads (hgood w like)

/-- A bracket is refused where nothing may nest. -/
theorem Rereads.of_bracket {v : Value} {c : Char} {more : List Char} {place : Position}
    (hc : c = '[' ∨ c = '\x7b') (hcons : v.compactChars = c :: more) (hdepth : 0 < v.depth) :
    Rereads v.depth 0 v.Alike rest (readValue (fuel + 1) 0 ⟨v.compactChars ++ rest, place⟩) := by
  obtain ⟨after, hfails⟩ := readValue_tooDeep hc (more ++ rest) place
  rw [hcons, List.cons_append]
  exact .tooDeep after hdepth hfails

theorem rereads_emptyArray (fuel allowed : Nat) (rest : List Char) (place : Position) :
    Rereads (Value.array []).depth (allowed + 1) (Value.array []).Alike rest
      (readValue (fuel + 2) (allowed + 1) ⟨(Value.array []).compactChars ++ rest, place⟩) := by
  obtain ⟨after, hdone⟩ := exists_nextItem_done true rest (place.after '[')
  refine .back (.array []) after (Nat.succ_le_succ (Nat.zero_le _)) ?_ (.array .nil)
  rw [Value.compactChars, List.cons_append, readValue_bracket, readItems]
  simp only [List.isEmpty_nil, List.singleton_append, hdone, List.reverse_nil]

theorem rereads_emptyObject (fuel allowed : Nat) (rest : List Char) (place : Position) :
    Rereads (Value.object []).depth (allowed + 1) (Value.object []).Alike rest
      (readValue (fuel + 2) (allowed + 1) ⟨(Value.object []).compactChars ++ rest, place⟩) := by
  obtain ⟨after, hdone⟩ := exists_nextKey_done true isGap_nil rest (place.after '\x7b')
  refine .back (.object []) after (Nat.succ_le_succ (Nat.zero_le _)) ?_ (.object .nil)
  rw [List.nil_append] at hdone
  rw [Value.compactChars, List.cons_append, readValue_brace, readMembers]
  simp only [List.singleton_append, hdone]

/-- An item is read, and then the further ones. -/
theorem rereads_item {soFar ws : List Value} {w : Value} {cur : Cursor}
    (hnext : ∃ place, nextItem soFar.isEmpty cur =
      .ok (.item ⟨w.compactChars ++ (Value.compactItems ws ++ rest), place⟩))
    (hhead : ∀ place, Rereads w.depth allowed w.Alike (Value.compactItems ws ++ rest)
      (readValue fuel allowed ⟨w.compactChars ++ (Value.compactItems ws ++ rest), place⟩))
    (htail : ∀ u place, Rereads (Value.itemsDepth ws) allowed
      (fun x => ∃ us, x = .array ((u :: soFar).reverse ++ us) ∧ Value.AlikeItems ws us) rest
      (readItems fuel allowed (u :: soFar) ⟨Value.compactItems ws ++ rest, place⟩)) :
    Rereads (max w.depth (Value.itemsDepth ws)) allowed
      (fun x => ∃ us, x = .array (soFar.reverse ++ us) ∧ Value.AlikeItems (w :: ws) us) rest
      (readItems (fuel + 1) allowed soFar cur) := by
  obtain ⟨place, hnext⟩ := hnext
  rw [readItems, hnext]
  refine (hhead place).cons ?_ ?_
  · intro e he
    simp only [he]
  · intro u after hread halike
    simp only [hread]
    have hrest := htail u after
    cases hrest with
    | tooDeep place deep fails => exact .tooDeep place deep fails
    | back x behind shallow reads like =>
        obtain ⟨us, rfl, hus⟩ := like
        refine .back _ behind shallow reads ⟨u :: us, ?_, .cons halike hus⟩
        rw [List.reverse_cons, List.append_assoc, List.singleton_append]

/-- A member is read, and then the further ones. -/
theorem rereads_member {soFar ms : Members} {key : String} {w : Value} {first : Bool}
    {place : Position} (hkey : key ∉ soFar.keys)
    (hhead : ∀ place, Rereads w.depth allowed w.Alike (Value.compactMembers ms ++ rest)
      (readValue fuel allowed ⟨w.compactChars ++ (Value.compactMembers ms ++ rest), place⟩))
    (htail : ∀ u place, Rereads (Value.membersDepth ms) allowed
      (fun x => ∃ ns, x = .object (soFar ++ [(key, u)] ++ ns) ∧ Value.AlikeMembers ms ns) rest
      (readMembers fuel allowed false (soFar ++ [(key, u)])
        ⟨Value.compactMembers ms ++ rest, place⟩)) :
    Rereads (max w.depth (Value.membersDepth ms)) allowed
      (fun x => ∃ ns, x = .object (soFar ++ ns) ∧ Value.AlikeMembers ((key, w) :: ms) ns) rest
      (readMembers (fuel + 1) allowed first soFar
        ⟨memberHead first [] key ++ (w.compactChars ++ (Value.compactMembers ms ++ rest)),
          place⟩) := by
  obtain ⟨opened, closed, behind, hnext, hbody, hcolon⟩ := exists_memberHead first isGap_nil key
    (w.compactChars ++ (Value.compactMembers ms ++ rest)) place
  rw [readMembers]
  simp only [hnext, hbody, hcolon]
  refine (hhead behind).cons ?_ ?_
  · intro e he
    simp only [he]
  · -- the keys of a regular object are distinct, so a member that is read comes last
    intro u after hread halike
    simp only [hread, Members.set_of_not_mem hkey]
    have hrest := htail u after
    cases hrest with
    | tooDeep place deep fails => exact .tooDeep place deep fails
    | back x behind shallow reads like =>
        obtain ⟨ns, rfl, hns⟩ := like
        refine .back _ behind shallow reads ⟨(key, u) :: ns, ?_, .cons key halike hns⟩
        rw [List.append_assoc, List.singleton_append]

mutual
/-- A printed value that a reader can have given is read back, or refused because it
nests too deep. -/
theorem rereads_value (v : Value) (hv : v.IsRegular) (fuel allowed : Nat) (rest : List Char)
    (place : Position) (hfuel : v.compactChars.length ≤ fuel) (hcloses : Closes rest) :
    Rereads v.depth allowed v.Alike rest
      (readValue fuel allowed ⟨v.compactChars ++ rest, place⟩) := by
  have hpos := length_compactChars_pos hv
  obtain ⟨fuel, rfl⟩ := Nat.exists_eq_succ_of_ne_zero (show fuel ≠ 0 by omega)
  -- each bracket takes a level of what is allowed; at the last one the first bracket is refused
  match v with
  | .null => exact .of_takes rfl takes_readValue_null .null
  | .bool b => exact .of_takes rfl (takes_readValue_bool b) (.bool b)
  | .string s => exact .of_takes rfl (takes_readValue_string fuel allowed s) (.string s)
  | .number n =>
      cases hv with
      | number h =>
          obtain ⟨m, after, hread, halike⟩ := exists_readValue_number h hcloses fuel allowed place
          exact .back (.number m) after (Nat.zero_le _) hread (.number halike)
  | .array vs =>
      cases hv with
      | array hvs =>
          cases allowed with
          | zero =>
              obtain ⟨more, hcons⟩ := exists_bracket vs
              exact .of_bracket (.inl rfl) hcons (Nat.succ_pos _)
          | succ allowed =>
              match vs with
              | [] =>
                  rw [Value.compactChars, List.length_cons, List.length_singleton] at hfuel
                  obtain ⟨fuel, rfl⟩ := Nat.exists_eq_succ_of_ne_zero (show fuel ≠ 0 by omega)
                  exact rereads_emptyArray fuel allowed rest place
              | w :: ws =>
                  rw [List.forall_mem_cons] at hvs
                  have hw := length_compactChars_pos hvs.1
                  have hws := length_compactItems_pos ws
                  rw [Value.compactChars, List.length_append, List.length_cons] at hfuel
                  obtain ⟨fuel, rfl⟩ := Nat.exists_eq_succ_of_ne_zero (show fuel ≠ 0 by omega)
                  rw [Value.compactChars, List.append_assoc, List.cons_append, readValue_bracket]
                  refine Rereads.succ (rereads_item ?_ ?_ ?_) ?_
                  · exact ⟨_, exists_nextItem_first (opens_compactChars hvs.1 _) _⟩
                  · intro place
                    exact rereads_value w hvs.1 fuel allowed _ place (by omega)
                      (closes_compactItems ws rest)
                  · intro u place
                    exact rereads_items ws hvs.2 fuel allowed [u] (List.cons_ne_nil _ _) rest place
                      (by omega)
                  · rintro x ⟨us, rfl, hus⟩
                    exact .array hus
  | .object ms =>
      cases hv with
      | object hdistinct hms =>
          cases allowed with
          | zero =>
              obtain ⟨more, hcons⟩ := exists_brace ms
              exact .of_bracket (.inr rfl) hcons (Nat.succ_pos _)
          | succ allowed =>
              match ms with
              | [] =>
                  rw [Value.compactChars, List.length_cons, List.length_singleton] at hfuel
                  obtain ⟨fuel, rfl⟩ := Nat.exists_eq_succ_of_ne_zero (show fuel ≠ 0 by omega)
                  exact rereads_emptyObject fuel allowed rest place
              | (key, w) :: ms =>
                  rw [List.forall_mem_cons] at hms
                  have hw : 0 < w.compactChars.length := length_compactChars_pos hms.1
                  have hmore := length_compactMembers_pos ms
                  rw [compactChars_object_cons, List.length_cons, List.length_append,
                    List.length_append] at hfuel
                  obtain ⟨fuel, rfl⟩ := Nat.exists_eq_succ_of_ne_zero (show fuel ≠ 0 by omega)
                  rw [compactChars_object_cons, List.cons_append, List.append_assoc,
                    List.append_assoc, readValue_brace]
                  refine Rereads.succ (rereads_member List.not_mem_nil ?_ ?_) ?_
                  · intro place
                    exact rereads_value w hms.1 fuel allowed _ place (by omega)
                      (closes_compactMembers ms rest)
                  · intro u place
                    exact rereads_members ms hms.2 fuel allowed [(key, u)] hdistinct rest place
                      (by omega)
                  · rintro x ⟨ns, rfl, hns⟩
                    exact .object hns
/-- So are the further items of an array. -/
theorem rereads_items (vs : List Value) (hvs : ∀ v ∈ vs, v.IsRegular) (fuel allowed : Nat)
    (soFar : List Value) (hsoFar : soFar ≠ []) (rest : List Char) (place : Position)
    (hfuel : (Value.compactItems vs).length ≤ fuel) :
    Rereads (Value.itemsDepth vs) allowed
      (fun w => ∃ ws, w = .array (soFar.reverse ++ ws) ∧ Value.AlikeItems vs ws) rest
      (readItems fuel allowed soFar ⟨Value.compactItems vs ++ rest, place⟩) := by
  match vs with
  | [] =>
      obtain ⟨fuel, rfl⟩ := Nat.exists_eq_succ_of_ne_zero (show fuel ≠ 0 by rintro rfl; cases hfuel)
      obtain ⟨after, hdone⟩ := exists_nextItem_done soFar.isEmpty rest place
      refine .back (.array soFar.reverse) after (Nat.zero_le _) ?_
        ⟨[], by rw [List.append_nil], .nil⟩
      rw [readItems, Value.compactItems, List.singleton_append, hdone]
  | w :: ws =>
      rw [List.forall_mem_cons] at hvs
      rw [Value.compactItems, List.cons_append, List.length_cons, List.length_append] at hfuel
      obtain ⟨fuel, rfl⟩ := Nat.exists_eq_succ_of_ne_zero (show fuel ≠ 0 by omega)
      have hempty : soFar.isEmpty = false := by
        rw [List.isEmpty_eq_false_iff]
        exact hsoFar
      refine rereads_item ?_ ?_ ?_
      · rw [hempty, Value.compactItems, List.cons_append, List.cons_append, List.append_assoc]
        exact exists_nextItem_comma (opens_compactChars hvs.1 _) place
      · intro place
        exact rereads_value w hvs.1 fuel allowed _ place (by omega) (closes_compactItems ws rest)
      · intro u place
        exact rereads_items ws hvs.2 fuel allowed (u :: soFar) (List.cons_ne_nil _ _) rest place
          (by omega)
/-- So are the further members of an object. -/
theorem rereads_members (ms : Members) (hms : ∀ m ∈ ms, Value.IsRegular m.2) (fuel allowed : Nat)
    (soFar : Members) (hdistinct : Members.Distinct (soFar ++ ms)) (rest : List Char)
    (place : Position) (hfuel : (Value.compactMembers ms).length ≤ fuel) :
    Rereads (Value.membersDepth ms) allowed
      (fun w => ∃ ns, w = .object (soFar ++ ns) ∧ Value.AlikeMembers ms ns) rest
      (readMembers fuel allowed false soFar ⟨Value.compactMembers ms ++ rest, place⟩) := by
  match ms with
  | [] =>
      obtain ⟨fuel, rfl⟩ := Nat.exists_eq_succ_of_ne_zero (show fuel ≠ 0 by rintro rfl; cases hfuel)
      obtain ⟨after, hdone⟩ := exists_nextKey_done false isGap_nil rest place
      refine .back (.object soFar) after (Nat.zero_le _) ?_ ⟨[], by rw [List.append_nil], .nil⟩
      rw [List.nil_append] at hdone
      rw [readMembers, Value.compactMembers, List.singleton_append, hdone]
  | (key, w) :: ms =>
      rw [List.forall_mem_cons] at hms
      rw [compactMembers_cons, List.length_append, List.length_append] at hfuel
      have hkey : key ∉ soFar.keys := by
        rw [Members.Distinct, Members.keys, List.map_append, List.nodup_append] at hdistinct
        exact fun hmem => hdistinct.2.2 key hmem key List.mem_cons_self rfl
      have hhead := length_memberHead_pos false key
      obtain ⟨fuel, rfl⟩ := Nat.exists_eq_succ_of_ne_zero (show fuel ≠ 0 by omega)
      rw [compactMembers_cons, List.append_assoc, List.append_assoc]
      refine rereads_member hkey ?_ ?_
      · intro place
        exact rereads_value w hms.1 fuel allowed _ place (by omega) (closes_compactMembers ms rest)
      · intro u place
        refine rereads_members ms hms.2 fuel allowed (soFar ++ [(key, u)]) ?_ rest place (by omega)
        rw [Members.Distinct, Members.keys] at hdistinct ⊢
        simpa using hdistinct
end

end Reading

/-! ### Texts -/

section Texts

variable {v w : Value}

/-- A compact text is read with fuel to spare. -/
theorem rereads_compact (h : v.IsRegular) : Rereads v.depth deepest v.Alike []
    (readValue (Cursor.start v.compact).fuel deepest (Cursor.start v.compact)) := by
  have hstart : Cursor.start v.compact = ⟨v.compactChars ++ [], ⟨1, 0⟩⟩ := by
    rw [Cursor.start, Value.compact, String.toList_ofList, List.append_nil]
  have hfuel : v.compactChars.length ≤ (Cursor.start v.compact).fuel := by
    rw [Cursor.fuel, hstart, List.append_nil]
    dsimp only
    omega
  generalize (Cursor.start v.compact).fuel = fuel at hfuel
  rw [hstart]
  exact rereads_value v h fuel deepest [] ⟨1, 0⟩ hfuel closes_nil

/-- A value that can have been read is read back exactly when it nests no deeper than
the reader allows. -/
theorem read_compact_iff (h : v.IsRegular) : (∃ w, read v.compact = .ok w) ↔ v.depth ≤ deepest := by
  rw [read]
  cases rereads_compact h with
  | back w after shallow reads =>
      rw [reads]
      dsimp only
      rw [readEnd_nil]
      exact ⟨fun _ => shallow, fun _ => ⟨w, rfl⟩⟩
  | tooDeep place deep fails =>
      rw [fails]
      refine ⟨?_, fun hshallow => absurd hshallow (Nat.not_le.mpr deep)⟩
      rintro ⟨w, hread⟩
      cases hread

/-- What is read back is like the value that was printed. -/
theorem alike_of_read_compact (h : v.IsRegular) (hread : read v.compact = .ok w) : v.Alike w := by
  rw [read] at hread
  cases rereads_compact h with
  | back u after shallow reads like =>
      rw [reads] at hread
      dsimp only at hread
      rw [readEnd_nil] at hread
      exact Except.ok.inj hread ▸ like
  | tooDeep place deep fails =>
      rw [fails] at hread
      cases hread

end Texts

end Haulage.Json
