import Haulage.Proofs.Json.Members
import Haulage.Proofs.Telemetry.Filing

/-!
# Contexts with nested entries shown

To show the nested entries of a context is to replace texts that hold a JSON object by that object,
where they stand. Nothing else of the context is touched: no key comes, goes or moves, and an entry
that holds anything but such a text stays as it is. An object holds no text to be replaced, so
showing the entries again changes nothing, whatever texts stand inside of it.

- `nestedObject?_eq_some_iff`: which entries are replaced, and by what.
- `keys_expand`: the keys and their order stay.
- `expandKey_eq_self`, `nestedObject?_shown`: nothing is left to be replaced in an
  entry that is shown.
- `expands_expand`: what a context is shown as.
-/

set_option autoImplicit false

namespace Haulage.Context

open Haulage.Json

variable {ctx : Context} {key : String} {v object : Value}

/-- An entry that is a text which reads as a JSON object. -/
def HoldsObject (entry : Option Value) (members : Members) : Prop :=
  ∃ s, entry = some (.string s) ∧ Json.read s = .ok (.object members)

theorem nestedObject?_eq_some_iff :
    nestedObject? v = some object ↔
      ∃ members, HoldsObject (some v) members ∧ object = .object members := by
  rw [nestedObject?.eq_def]
  constructor
  · intro h
    split at h
    · rename_i s
      split at h
      · rename_i members hread
        exact ⟨members, ⟨s, rfl, hread⟩, (Option.some.inj h).symm⟩
      · cases h
    · cases h
  · rintro ⟨members, ⟨s, hv, hread⟩, rfl⟩
    obtain rfl := Option.some.inj hv
    simp only [hread]

/-- An entry that is shown is not replaced again. -/
theorem nestedObject?_shown (v : Value) : nestedObject? (shown v) = none := by
  rw [shown]
  cases hnested : nestedObject? v with
  | none => exact hnested
  | some object =>
      obtain ⟨members, -, rfl⟩ := nestedObject?_eq_some_iff.mp hnested
      rfl

/-! ## Keys -/

theorem keys_expandKey (ctx : Context) (key : String) :
    Members.keys (expandKey ctx key) = Members.keys ctx := by
  rw [expandKey]
  split
  · rename_i object hobject
    obtain ⟨v, hv, -⟩ := Option.bind_eq_some_iff.mp hobject
    have hmem : key ∈ Members.keys ctx := by
      rw [Members.mem_keys_iff, hv]
      rfl
    rw [Members.keys_set, if_pos hmem]
  · rfl

/-- The keys and their order stay. -/
theorem keys_expand (ctx : Context) : Members.keys ctx.expand = Members.keys ctx := by
  rw [expand]
  generalize nestedKeys = keys
  induction keys generalizing ctx with
  | nil => rfl
  | cons key more ih => rw [List.foldl_cons, ih, keys_expandKey]

/-! ## Entries -/

theorem expandKey_eq_self (h : (Members.get? ctx key).bind nestedObject? = none) :
    expandKey ctx key = ctx := by
  rw [expandKey, h]

/-- A context of which every nested entry is shown stays as it is. -/
theorem expand_eq_self (h : ∀ key ∈ nestedKeys, (Members.get? ctx key).bind nestedObject? = none) :
    ctx.expand = ctx := by
  rw [expand]
  generalize nestedKeys = keys at h
  induction keys with
  | nil => rfl
  | cons key more ih =>
      rw [List.forall_mem_cons] at h
      rw [List.foldl_cons, expandKey_eq_self h.1, ih h.2]

/-- Showing a context that is shown changes nothing. -/
theorem expand_expand (ctx : Context) : ctx.expand.expand = ctx.expand := by
  apply expand_eq_self
  intro key hkey
  rw [get?_expand, if_pos hkey]
  cases Members.get? ctx key with
  | none => rfl
  | some v => exact nestedObject?_shown v

/-- What a context is shown as. -/
structure ExpandsTo (ctx expanded : Context) : Prop where
  /-- The keys stay, in their order. -/
  keys : Members.keys expanded = Members.keys ctx
  /-- An entry changes exactly when it is nested and holds an object as text. -/
  changed_iff : ∀ key, Members.get? expanded key ≠ Members.get? ctx key ↔
    key ∈ nestedKeys ∧ ∃ members, HoldsObject (Members.get? ctx key) members
  /-- Then it becomes that object. -/
  object : ∀ key ∈ nestedKeys, ∀ members, HoldsObject (Members.get? ctx key) members →
    Members.get? expanded key = some (.object members)

theorem get?_expand_of_holdsObject {members : Members} (hkey : key ∈ nestedKeys)
    (h : HoldsObject (Members.get? ctx key) members) :
    Members.get? ctx.expand key = some (.object members) := by
  obtain ⟨s, hs, hread⟩ := h
  have hnested : nestedObject? (.string s) = some (.object members) :=
    nestedObject?_eq_some_iff.mpr ⟨members, ⟨s, rfl, hread⟩, rfl⟩
  rw [get?_expand, if_pos hkey, hs, Option.map_some, shown, hnested]
  rfl

theorem get?_expand_of_no_object (h : ∀ members, ¬ HoldsObject (Members.get? ctx key) members) :
    Members.get? ctx.expand key = Members.get? ctx key := by
  rw [get?_expand]
  split
  · cases hv : Members.get? ctx key with
    | none => rfl
    | some v =>
        have hnested : nestedObject? v = none := by
          rw [Option.eq_none_iff_forall_ne_some]
          intro object hobject
          obtain ⟨members, hholds, -⟩ := nestedObject?_eq_some_iff.mp hobject
          exact h members (hv ▸ hholds)
        rw [Option.map_some, shown, hnested]
        rfl
  · rfl

/-- Showing the nested entries of a context replaces those that hold an object as text by the
object, and nothing else; showing them again changes nothing. -/
theorem expands_expand (ctx : Context) :
    ExpandsTo ctx ctx.expand ∧ ctx.expand.expand = ctx.expand := by
  refine ⟨⟨keys_expand ctx, fun key => ?_, fun key hkey members => get?_expand_of_holdsObject hkey⟩,
    expand_expand ctx⟩
  constructor
  · intro hchanged
    constructor
    · by_contra hkey
      rw [get?_expand, if_neg hkey] at hchanged
      exact hchanged rfl
    · by_contra hnone
      exact hchanged (get?_expand_of_no_object (not_exists.mp hnone))
  · rintro ⟨hkey, members, hholds⟩ hsame
    obtain ⟨s, hs, -⟩ := id hholds
    rw [get?_expand_of_holdsObject hkey hholds, hs] at hsame
    cases hsame

/-- Of three texts the one that stands for an object is shown as it, and the text inside of that
object stays; an array stays a text, and so does an object under another key. -/
example :
    (Value.object (expand [("note", .string "\x7b\x7d"), ("task_stats", .string "[1]"),
      ("task", .string "\x7b\"a\":1,\"b\":\"\x7b\x7d\",\"a\":2\x7d")])).compact =
      "\x7b\"note\":\"\x7b\x7d\",\"task_stats\":\"[1]\"," ++
        "\"task\":\x7b\"a\":2,\"b\":\"\x7b\x7d\"\x7d\x7d" := by
  decide +kernel

end Haulage.Context
