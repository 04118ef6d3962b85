import Haulage.Program
import Haulage.Proofs.Connections.RoundTrip
import Mathlib.Logic.Function.Basic

/-!
# Histories of connection commands

Commands about the connections follow each other in one home directory, each of them loading the
file, changing it and saving it anew. What the file holds after any number of them is what the
commands say without regard to a file: a name that is set has the properties it was set to, a name
that is unset has none, and nothing else is ever touched. A command that fails or only asks leaves
the file alone.

- `change?`: what an action is to make of the connections.
- `outcome_of_change`, `outcome_of_no_change`: what one command does to the file.
- `holds_outcome`, `holds_filesAfter`: what one command, and any number of them, leave in the file.
- `connections_follow_history`: the same for a further command after any history, and when it
  succeeds.
-/

set_option autoImplicit false

namespace Haulage

namespace SortedMap

variable {α : Type}

theorem get?_insert_eq_update (m : SortedMap α) (key : String) (value : α) :
    (m.insert key value).get? = Function.update m.get? key (some value) := by
  funext other
  rw [get?_insert, Function.update_apply]
  simp only [eq_comm]

theorem get?_erase_eq_update (m : SortedMap α) (key : String) :
    (m.erase key).get? = Function.update m.get? key none := by
  funext other
  rw [get?_erase, Function.update_apply]
  simp only [eq_comm]

end SortedMap

/-- The properties of connections by name. -/
abbrev Bindings := String → Option Properties

/-- A command about the connections, and what it meets when it is run. -/
structure ConnectionRequest where
  surroundings : Surroundings
  action : ConnectionAction
  context : Context

namespace ConnectionAction

/-- Whether an action is there to change the connections. -/
def IsEdit : ConnectionAction → Prop
  | .set _ _ => True
  | .unset _ => True
  | _ => False

/-- The connections that an action makes of others, if it changes them. -/
def change? (b : Bindings) : ConnectionAction → Option Bindings
  | .set name arguments =>
    match Properties.read arguments with
    | .error _ => none
    | .ok props =>
      if (props.get? "url").isSome then some (Function.update b name (some props)) else none
  | .unset name => if (b name).isSome then some (Function.update b name none) else none
  | _ => none

/-- The connections after an action. -/
def bindingsAfter (b : Bindings) (a : ConnectionAction) : Bindings :=
  (a.change? b).getD b

theorem change?_of_not_isEdit {a : ConnectionAction} (b : Bindings) (h : ¬a.IsEdit) :
    a.change? b = none := by
  cases a with
  | set name arguments => exact absurd trivial h
  | unset name => exact absurd trivial h
  | _ => rfl

theorem change?_set_eq_some_iff {b b' : Bindings} {name : String} {arguments : List String} :
    change? b (.set name arguments) = some b' ↔
      ∃ props url, Properties.read arguments = .ok props ∧ props.get? "url" = some url ∧
        Function.update b name (some props) = b' := by
  rw [change?]
  cases Properties.read arguments with
  | error f => simp
  | ok props => cases hurl : props.get? "url" <;> simp [hurl]

theorem change?_unset_eq_some_iff {b b' : Bindings} {name : String} :
    change? b (.unset name) = some b' ↔
      (b name).isSome = true ∧ Function.update b name none = b' := by
  rw [change?]
  cases b name <;> simp

/-! ## One command -/

section Outcome

variable {s : Surroundings} {r : Registry} {env : Path} {name : String} {arguments : List String}
  {fs : FileSystem} {ctx : Context}

theorem files_testing : (testing s r name fs ctx).files = fs := by
  rw [testing]
  split
  · rfl
  · split <;> rfl

theorem files_discovering {pattern : Option String} {recursive columns : Bool} :
    (discovering s r name pattern recursive columns fs ctx).files = fs := by
  rw [discovering]
  split
  · rfl
  · split
    · rfl
    · split <;> rfl

theorem files_querying {queries : List String} :
    (querying s r name queries fs ctx).files = fs := by
  rw [querying]
  split
  · rfl
  · split <;> rfl

theorem saving_of_writable (r : Registry) (hwritable : Registry.Writable fs env) (words : String) :
    saving r env words fs ctx = .saying (r.save fs env).1 ctx [.stdout words] := by
  have hsaved := (Registry.result_save_eq_ok_iff r).mpr hwritable
  rw [saving]
  split
  · rename_i fs' f hsave
    rw [hsave] at hsaved
    cases hsaved
  · rename_i fs' hsave
    rw [hsave]

/-- A connection is set to properties that can be read and include a URL. -/
theorem setting_of_url {props : Properties} {url : String}
    (hwritable : Registry.Writable fs env) (hread : Properties.read arguments = .ok props)
    (hurl : props.get? "url" = some url) :
    (setting r env name arguments fs ctx).files =
        (Registry.save ⟨r.connections.insert name props⟩ fs env).1 ∧
      (setting r env name arguments fs ctx).result = .ok () := by
  simp only [setting, hread, hurl]
  rw [saving_of_writable _ hwritable]
  exact ⟨rfl, rfl⟩

theorem setting_of_error {f : Failure} (hread : Properties.read arguments = .error f) :
    setting r env name arguments fs ctx = .failing fs ctx f := by
  simp only [setting, hread]

theorem setting_of_no_url {props : Properties} (hread : Properties.read arguments = .ok props)
    (hurl : props.get? "url" = none) :
    setting r env name arguments fs ctx = .failing fs ctx (.of (.urlNeeded name)) := by
  simp only [setting, hread, hurl]

/-- A connection that is bound is removed. -/
theorem unsetting_of_bound (hwritable : Registry.Writable fs env)
    (hbound : (r.connections.get? name).isSome = true) :
    (unsetting r env name fs ctx).files = (Registry.save ⟨r.connections.erase name⟩ fs env).1 ∧
      (unsetting r env name fs ctx).result = .ok () := by
  rw [unsetting, SortedMap.contains_eq_isSome, hbound, if_pos rfl, saving_of_writable _ hwritable]
  exact ⟨rfl, rfl⟩

theorem unsetting_of_free (hfree : r.connections.get? name = none) :
    unsetting r env name fs ctx = .failing fs ctx (.of (.connectionNotFound name)) := by
  rw [unsetting, SortedMap.contains_eq_isSome, hfree]
  rfl

variable {a : ConnectionAction} {b b' : Bindings}

/-- An action that changes the connections saves what it makes of them, and succeeds. -/
theorem outcome_of_change (s : Surroundings) (ctx : Context) (hload : Registry.load fs env = .ok r)
    (hwritable : Registry.Writable fs env) (hb : r.connections.get? = b)
    (hchange : a.change? b = some b') :
    ∃ r' : Registry, (a.execute s env fs ctx).files = (r'.save fs env).1 ∧
      (a.execute s env fs ctx).result = .ok () ∧ r'.connections.get? = b' := by
  simp only [execute, hload]
  cases a with
  | set name arguments =>
      obtain ⟨props, url, hread, hurl, hb'⟩ := change?_set_eq_some_iff.mp hchange
      obtain ⟨hfiles, hresult⟩ :=
        @setting_of_url r env name arguments fs ctx _ _ hwritable hread hurl
      refine ⟨_, hfiles, hresult, ?_⟩
      rw [← hb', ← hb, SortedMap.get?_insert_eq_update]
  | unset name =>
      obtain ⟨hbound, hb'⟩ := change?_unset_eq_some_iff.mp hchange
      rw [← hb] at hbound
      obtain ⟨hfiles, hresult⟩ := @unsetting_of_bound r env name fs ctx hwritable hbound
      refine ⟨_, hfiles, hresult, ?_⟩
      rw [← hb', ← hb, SortedMap.get?_erase_eq_update]
  -- no other action changes anything
  | _ => cases hchange

/-- An action that changes nothing leaves all files as they are, and fails if it was to change
something. -/
theorem outcome_of_no_change (s : Surroundings) (ctx : Context)
    (hload : Registry.load fs env = .ok r) (hb : r.connections.get? = b)
    (hchange : a.change? b = none) : (a.execute s env fs ctx).files = fs ∧
      (a.IsEdit → (a.execute s env fs ctx).result ≠ .ok ()) := by
  simp only [execute, hload]
  cases a with
  | list => exact ⟨rfl, False.elim⟩
  | test name => exact ⟨files_testing, False.elim⟩
  | discover name pattern recursive columns => exact ⟨files_discovering, False.elim⟩
  | exec name queries => exact ⟨files_querying, False.elim⟩
  | set name arguments =>
      show (setting r env name arguments fs ctx).files = fs ∧
        (IsEdit _ → (setting r env name arguments fs ctx).result ≠ .ok ())
      cases hread : Properties.read arguments with
      | error f =>
          rw [setting_of_error hread]
          exact ⟨rfl, fun _ h => nomatch h⟩
      | ok props =>
          have hurl : props.get? "url" = none := by
            rw [change?, hread] at hchange
            simpa using hchange
          rw [setting_of_no_url hread hurl]
          exact ⟨rfl, fun _ h => nomatch h⟩
  | unset name =>
      show (unsetting r env name fs ctx).files = fs ∧
        (IsEdit _ → (unsetting r env name fs ctx).result ≠ .ok ())
      have hfree : r.connections.get? name = none := by
        rw [change?, ← hb] at hchange
        simpa using hchange
      rw [unsetting_of_free hfree]
      exact ⟨rfl, fun _ h => nomatch h⟩

end Outcome

end ConnectionAction

/-! ## Histories -/

namespace ConnectionRequest

/-- What a request leaves behind in a home directory. -/
def outcome (q : ConnectionRequest) (home : Path) (fs : FileSystem) : Outcome :=
  Command.execute q.surroundings home (.connections q.action) fs q.context

/-- The files after a number of requests. -/
def filesAfter (home : Path) (fs : FileSystem) (done : List ConnectionRequest) : FileSystem :=
  done.foldl (fun fs q => (q.outcome home fs).files) fs

/-- The connections after a number of requests, by what the requests ask for alone. -/
def bindingsAfter (b : Bindings) (done : List ConnectionRequest) : Bindings :=
  done.foldl (fun b q => q.action.bindingsAfter b) b

/-- A home directory whose file holds the given connections and can be written. -/
structure Holds (home : Path) (fs : FileSystem) (b : Bindings) : Prop where
  loaded : ∃ r, Registry.load fs (Registry.path home) = .ok r ∧ r.connections.get? = b
  writable : Registry.Writable fs (Registry.path home)

variable {home : Path} {fs : FileSystem} {b : Bindings}

/-- After a request the file holds what the request makes of the connections. -/
theorem holds_outcome (h : Holds home fs b) (q : ConnectionRequest) :
    Holds home (q.outcome home fs).files (q.action.bindingsAfter b) := by
  obtain ⟨⟨r, hload, hb⟩, hwritable⟩ := h
  cases hchange : q.action.change? b with
  | none =>
      have hfiles :=
        (ConnectionAction.outcome_of_no_change q.surroundings q.context hload hb hchange).1
      rw [outcome, Command.execute, hfiles, ConnectionAction.bindingsAfter, hchange]
      exact ⟨⟨r, hload, hb⟩, hwritable⟩
  | some b' =>
      obtain ⟨r', hfiles, -, hb'⟩ :=
        ConnectionAction.outcome_of_change q.surroundings q.context hload hwritable hb hchange
      rw [outcome, Command.execute, hfiles, ConnectionAction.bindingsAfter, hchange]
      exact ⟨⟨r', Registry.load_save r' hwritable, hb'⟩, hwritable.files_save r'⟩

/-- After any number of requests the file holds what they make of the connections. -/
theorem holds_filesAfter (h : Holds home fs b) (done : List ConnectionRequest) :
    Holds home (filesAfter home fs done) (bindingsAfter b done) := by
  -- each request starts from what the ones before it have left
  induction done generalizing fs b with
  | nil => exact h
  | cons q more ih => exact ih (holds_outcome h q)

theorem result_eq_ok_iff (h : Holds home fs b) (q : ConnectionRequest) (hedit : q.action.IsEdit) :
    (q.outcome home fs).result = .ok () ↔ (q.action.change? b).isSome = true := by
  obtain ⟨⟨r, hload, hb⟩, hwritable⟩ := h
  cases hchange : q.action.change? b with
  | none =>
      have hfails :=
        (ConnectionAction.outcome_of_no_change q.surroundings q.context hload hb hchange).2 hedit
      exact ⟨fun hok => absurd hok hfails, fun h => nomatch h⟩
  | some b' =>
      obtain ⟨-, -, hok, -⟩ :=
        ConnectionAction.outcome_of_change q.surroundings q.context hload hwritable hb hchange
      exact ⟨fun _ => rfl, fun _ => hok⟩

/-- A request that fails or only asks leaves all files as they are. -/
theorem files_outcome (h : Holds home fs b) (q : ConnectionRequest)
    (hkept : (q.outcome home fs).result ≠ .ok () ∨ ¬q.action.IsEdit) :
    (q.outcome home fs).files = fs := by
  have hchange : q.action.change? b = none := by
    by_cases hedit : q.action.IsEdit
    · have hfails := hkept.resolve_right (not_not_intro hedit)
      rw [ne_eq, result_eq_ok_iff h q hedit] at hfails
      simpa using hfails
    · exact ConnectionAction.change?_of_not_isEdit b hedit
  obtain ⟨⟨r, hload, hb⟩, -⟩ := h
  exact (ConnectionAction.outcome_of_no_change q.surroundings q.context hload hb hchange).1

/-- What a request does in a home directory whose file holds the given connections. -/
structure Follows (home : Path) (before : FileSystem) (b : Bindings) (q : ConnectionRequest) :
    Prop where
  /-- From then on the file holds what the request makes of the connections. -/
  loaded : ∃ r, Registry.load (q.outcome home before).files (Registry.path home) = .ok r ∧
    r.connections.get? = q.action.bindingsAfter b
  /-- A connection is set exactly when its properties can be read and include a URL. -/
  set_iff : ∀ name arguments, q.action = .set name arguments →
    ((q.outcome home before).result = .ok () ↔
      ∃ props, Properties.read arguments = .ok props ∧ (props.get? "url").isSome = true)
  /-- A connection is removed exactly when it is there. -/
  unset_iff : ∀ name, q.action = .unset name →
    ((q.outcome home before).result = .ok () ↔ (b name).isSome = true)
  /-- A request that fails or only asks leaves all files as they are. -/
  kept : (q.outcome home before).result ≠ .ok () ∨ ¬q.action.IsEdit →
    (q.outcome home before).files = before

theorem follows_of_holds (h : Holds home fs b) (q : ConnectionRequest) : Follows home fs b q where
  loaded := (holds_outcome h q).loaded
  set_iff name arguments hq := by
    rw [result_eq_ok_iff h q (by rw [hq]; trivial), hq, Option.isSome_iff_exists]
    constructor
    · rintro ⟨b', hb'⟩
      obtain ⟨props, url, hread, hurl, -⟩ := ConnectionAction.change?_set_eq_some_iff.mp hb'
      exact ⟨props, hread, Option.isSome_of_eq_some hurl⟩
    · rintro ⟨props, hread, hhas⟩
      obtain ⟨url, hurl⟩ := Option.isSome_iff_exists.mp hhas
      exact ⟨_, ConnectionAction.change?_set_eq_some_iff.mpr ⟨props, url, hread, hurl, rfl⟩⟩
  unset_iff name hq := by
    rw [result_eq_ok_iff h q (by rw [hq]; trivial), hq]
    simp [Option.isSome_iff_exists, ConnectionAction.change?_unset_eq_some_iff]
  kept := files_outcome h q

/-- Whatever was requested before in a home directory whose file could be loaded and written,
the next request finds the connections that the requests before it left, and does with them
what it says. -/
theorem connections_follow_history {home : Path} {fs : FileSystem} {r : Registry}
    (hload : Registry.load fs (Registry.path home) = .ok r)
    (hwritable : Registry.Writable fs (Registry.path home))
    (done : List ConnectionRequest) (next : ConnectionRequest) :
    Follows home (filesAfter home fs done) (bindingsAfter r.connections.get? done) next := by
  have hstart : Holds home fs r.connections.get? := ⟨⟨r, hload, rfl⟩, hwritable⟩
  exact follows_of_holds (holds_filesAfter hstart done) next

/-- A request on a machine without any network. -/
def offline (a : ConnectionAction) : ConnectionRequest :=
  ⟨⟨.isolated, none, false, false, ⟨0⟩⟩, a, []⟩

/-- One connection. -/
def oneConnection : Registry :=
  ⟨.ofList [("pg", .ofList [("url", "postgres://db")])]⟩

/-- A home directory with a file for one connection. -/
def oneConnectionFiles : FileSystem :=
  .ofFiles [("env.json", oneConnection.content)]

/-- Requests of which only the first and the last one succeed. -/
def mixedRequests : List ConnectionRequest :=
  [ .set "my" ["URL = mysql://db/x?a=b", "User=ada"],
    .set "pg" ["host=db"],
    .unset "none",
    .test "my",
    .set "my" ["url=sqlite.db", "=1"],
    .set "my" ["url=other.db", "Note = a=b", "URL=last.db"] ].map offline

/-- The connection that was there is removed at last, and the other one is the one it was
set to last. -/
theorem follows_mixedRequests :
    Registry.load oneConnectionFiles (Registry.path ⟨""⟩) = .ok oneConnection ∧
      Registry.Writable oneConnectionFiles (Registry.path ⟨""⟩) ∧
      ((offline (.unset "pg")).outcome ⟨""⟩
        (filesAfter ⟨""⟩ oneConnectionFiles mixedRequests)).result =
        .ok () ∧
      ∃ r, Registry.load
          ((offline (.unset "pg")).outcome ⟨""⟩
            (filesAfter ⟨""⟩ oneConnectionFiles mixedRequests)).files (Registry.path ⟨""⟩) = .ok r ∧
        (r.connections.get? "pg").isNone = true ∧
        (r.connections.get? "my").map SortedMap.toList =
          some [("note", "a=b"), ("url", "last.db")] := by
  have hpath : Registry.path ⟨""⟩ = ⟨"env.json"⟩ := by decide +kernel
  have hname : FileSystem.IsPlain "env.json" := by decide +kernel
  have hnode : oneConnectionFiles.node? ["env.json"] = some (.file oneConnection.content) := rfl
  have hload : Registry.load oneConnectionFiles (Registry.path ⟨""⟩) = .ok oneConnection := by
    rw [hpath]
    exact Registry.load_of_find_content (FileSystem.find_of_isPlain hname hnode)
  have hwritable : Registry.Writable oneConnectionFiles (Registry.path ⟨""⟩) := by
    rw [hpath]
    exact @Registry.writable_of_isPlain _ _ hname (by decide +kernel) (some _) hnode
  have hfollows := connections_follow_history hload hwritable mixedRequests (offline (.unset "pg"))
  obtain ⟨r, hr, hbindings⟩ := hfollows.loaded
  refine ⟨hload, hwritable, (hfollows.unset_iff "pg" rfl).mpr ?_, r, hr, ?_, ?_⟩
  · decide +kernel
  · rw [hbindings]
    decide +kernel
  · rw [hbindings]
    decide +kernel

end ConnectionRequest

end Haulage
