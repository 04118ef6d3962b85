import Haulage.Proofs.Json.Members
import Haulage.Telemetry.Usage

/-!
# The properties of a usage event

A usage event takes its properties from the program, the telemetry context and extra properties.
Each later source wins over the earlier ones, key by key. Whose event it is and which command it is
about is not theirs to say: the keys for that are bound last, and the one for a sub-command is
removed when there is none.

- `distinct_usageProperties`: each property stands once.
- `get?_usageProperties`: the value of every property.
- `usageEvent_merges`: what a usage event says of its invocation and takes from its sources.
-/

set_option autoImplicit false

namespace Haulage

open Haulage.Json

namespace Telemetry

variable {ctx : Context} {extra : Members} {sub : Option String}

/-- The keys that only the identity and the invocation speak for. -/
def reservedKeys : List String :=
  ["user_id", "command", "sub-command"]

theorem distinct_ownProperties (t : Telemetry) : t.ownProperties.Distinct := by
  have hkeys : Members.keys t.ownProperties =
      ["application", "version", "package", "os", "emit_time", "user_id"] := rfl
  rw [Members.Distinct, hkeys]
  decide

/-! ## The sub-command -/

theorem distinct_withSubCommand {properties : Members} (h : properties.Distinct)
    (sub : Option String) : (withSubCommand properties sub).Distinct := by
  cases sub with
  | none => exact h.eraseSwap "sub-command"
  | some sub => exact h.set "sub-command" (.string sub)

theorem get?_withSubCommand {properties : Members} (h : properties.Distinct) (sub : Option String)
    (key : String) :
    Members.get? (withSubCommand properties sub) key =
      if "sub-command" = key then sub.map .string else Members.get? properties key := by
  cases sub with
  | none => exact Members.get?_eraseSwap h "sub-command" key
  | some sub => exact Members.get?_set properties "sub-command" (.string sub) key

/-! ## All properties -/

/-- Each property stands once before the sub-command comes in. -/
theorem distinct_marked (t : Telemetry) (ctx : Context) (extra : Members) (command : String) :
    ((((t.ownProperties.update ctx).update extra).set "user_id" (.string t.identity.text)).set
      "command" (.string command)).Distinct :=
  ((((t.distinct_ownProperties).update ctx).update extra).set _ _).set _ _

/-- Each property stands once, whatever the sources repeat. -/
theorem distinct_usageProperties (t : Telemetry) (ctx : Context) (i : Invocation)
    (extra : Members) : (t.usageProperties ctx i extra).Distinct :=
  distinct_withSubCommand (t.distinct_marked ctx extra i.command) i.subCommand

/-- The value of every property. -/
theorem get?_usageProperties (t : Telemetry) (i : Invocation) (hctx : Members.Distinct ctx)
    (hextra : extra.Distinct) (key : String) :
    Members.get? (t.usageProperties ctx i extra) key =
      if "sub-command" = key then i.subCommand.map .string
      else if "command" = key then some (.string i.command)
      else if "user_id" = key then some (.string t.identity.text)
      else (extra.get? key).or ((Members.get? ctx key).or (t.ownProperties.get? key)) := by
  have hgiven : Members.get? ((t.ownProperties.update ctx).update extra) key =
      (extra.get? key).or ((Members.get? ctx key).or (t.ownProperties.get? key)) := by
    rw [Members.get?_update hextra, Members.get?_update hctx]
  rw [usageProperties, get?_withSubCommand (t.distinct_marked ctx extra i.command),
    Members.get?_set, Members.get?_set, hgiven]

/-- What the properties of a usage event say. -/
structure Merges (t : Telemetry) (ctx : Context) (i : Invocation) (extra properties : Members) :
    Prop where
  once : (Members.keys properties).Nodup
  identity : properties.get? "user_id" = some (.string t.identity.text)
  command : properties.get? "command" = some (.string i.command)
  /-- The sub-command is there if the invocation has one. -/
  subCommand : properties.get? "sub-command" = i.subCommand.map .string
  /-- Any other property is the extra one, else that of the context, else that of the program. -/
  others : ∀ key ∉ reservedKeys, properties.get? key =
    (extra.get? key).or ((Members.get? ctx key).or (t.ownProperties.get? key))
  /-- No other property is there. -/
  mem_keys_iff : ∀ key, key ∈ properties.keys ↔
    key = "user_id" ∨ key = "command" ∨ (key = "sub-command" ∧ i.subCommand.isSome = true) ∨
      key ∉ reservedKeys ∧
        (key ∈ extra.keys ∨ key ∈ Members.keys ctx ∨ key ∈ t.ownProperties.keys)

/-- A usage event says whose it is and which command it is about, whatever its sources say of that,
and takes every other property from the last source that has it. -/
theorem usageEvent_merges (t : Telemetry) (name : String) (i : Invocation)
    (hctx : Members.Distinct ctx) (hextra : extra.Distinct) :
    (t.usageEvent ctx name i extra).name = name ∧
      Merges t ctx i extra (t.usageEvent ctx name i extra).properties := by
  have hget := t.get?_usageProperties i hctx hextra
  have hfree : ∀ key, key ∉ reservedKeys ↔
      "sub-command" ≠ key ∧ "command" ≠ key ∧ "user_id" ≠ key := by
    intro key
    simp only [reservedKeys, List.mem_cons, List.not_mem_nil, or_false, not_or, ne_eq, eq_comm]
    tauto
  refine ⟨rfl, ?_⟩
  rw [usageEvent]
  constructor
  · exact t.distinct_usageProperties ctx i extra
  · rw [hget]
    rfl
  · rw [hget]
    rfl
  · rw [hget]
    rfl
  · intro key hkey
    obtain ⟨hsub, hcommand, huser⟩ := (hfree key).mp hkey
    rw [hget, if_neg hsub, if_neg hcommand, if_neg huser]
  · intro key
    simp only [Members.mem_keys_iff, hget, hfree]
    split
    · rename_i hsub
      subst hsub
      simp
    · rename_i hsub
      split
      · rename_i hcommand
        subst hcommand
        simp
      · rename_i hcommand
        split
        · rename_i huser
          subst huser
          simp
        · rename_i huser
          -- none of the three keys: any of the three sources can have it
          have hsub' : ¬key = "sub-command" := fun e => hsub e.symm
          have hcommand' : ¬key = "command" := fun e => hcommand e.symm
          have huser' : ¬key = "user_id" := fun e => huser e.symm
          simp [hsub, hcommand, huser, hsub', hcommand', huser']

/-- A context that claims a sub-command and a package. -/
def spoofingContext : Context :=
  [("sub-command", .string "spoofed"), ("package", .string "from context"), ("rows", .null)]

/-- Extra properties that claim an identity. -/
def spoofingExtra : Members :=
  [("user_id", .string "spoofed"), ("rows", .bool true)]

/-- What telemetry knows in an empty environment, on an unknown machine. -/
def bareTelemetry : Telemetry :=
  ⟨.ofLookup false fun _ => none, .unknown, 7, ""⟩

/-- Neither the context nor extra properties can speak for the invocation. -/
theorem usageEvent_merges_spoofed :
    ∃ properties, properties =
        (bareTelemetry.usageEvent spoofingContext "run" ⟨"run", none, .dataMovement⟩
          spoofingExtra).properties ∧
      (Members.keys properties).Nodup ∧ properties.get? "user_id" = some (.string "") ∧
      properties.get? "command" = some (.string "run") ∧ properties.get? "sub-command" = none ∧
      properties.get? "package" = some (.string "from context") ∧
      properties.get? "rows" = some (.bool true) ∧
      properties.get? "emit_time" = some (.number (.integer 7)) ∧ "props" ∉ properties.keys := by
  have hctx : Members.Distinct spoofingContext := by
    rw [Members.Distinct]
    decide
  have hextra : Members.Distinct spoofingExtra := by
    rw [Members.Distinct]
    decide
  obtain ⟨-, hmerges⟩ :=
    bareTelemetry.usageEvent_merges "run" ⟨"run", none, .dataMovement⟩ hctx hextra
  refine ⟨_, rfl, hmerges.once, hmerges.identity, hmerges.command, hmerges.subCommand, ?_, ?_, ?_,
    ?_⟩
  · exact hmerges.others "package" (by decide)
  · exact hmerges.others "rows" (by decide)
  · exact hmerges.others "emit_time" (by decide)
  · rw [hmerges.mem_keys_iff]
    decide

end Telemetry

end Haulage
