import Haulage.CommandLine.Program
import Haulage.Connections.Registry
import Haulage.Connections.Store
import Haulage.Discovery
import Haulage.Outcome

/-!
# Actions on the named connections

Each action starts from the loaded registry. Only setting and unsetting a connection change its
file. The type of the connection is made known before anything is tried with it.
-/

set_option autoImplicit false

namespace Haulage

open Haulage.Json

namespace Outcome

/-- A command that fails and leaves the files as they are. -/
def failing (fs : FileSystem) (ctx : Context) (f : Failure) : Outcome :=
  ⟨fs, ctx, [], .error f⟩

/-- A command that succeeds and leaves the files as they are. -/
def saying (fs : FileSystem) (ctx : Context) (outputs : List Output) : Outcome :=
  ⟨fs, ctx, outputs, .ok ()⟩

end Outcome

namespace ConnectionAction

/-- The context with the type of a connection made known. -/
def typed (ctx : Context) (l : Location) : Context :=
  ctx.setText "conn_type" l.connectorType

/-- Saves a registry and says so. -/
def saving (r : Registry) (env : Path) (words : String) (fs : FileSystem) (ctx : Context) :
    Outcome :=
  match r.save fs env with
  | (fs, .error f) => .failing fs ctx f
  | (fs, .ok ()) => .saying fs ctx [.stdout words]

/-- Tests a connection. -/
def testing (s : Surroundings) (r : Registry) (name : String) (fs : FileSystem) (ctx : Context) :
    Outcome :=
  match r.lookup name with
  | .error f => .failing fs ctx f
  | .ok l =>
    match (l.check s.network fs).during (.testConnection name) with
    | .error f => .failing fs (typed ctx l) f
    | .ok () => .saying fs (typed ctx l) [.stdout "success!\n"]

/-- What is said about a connection whose file has been written. -/
def savedWords (name verb : String) (env : Path) : String :=
  "connection `" ++ name ++ "` has been " ++ verb ++ " " ++ env.text ++ "\n"

/-- Sets the properties of a connection, among them its URL. -/
def setting (r : Registry) (env : Path) (name : String) (arguments : List String) (fs : FileSystem)
    (ctx : Context) : Outcome :=
  match Properties.read arguments with
  | .error f => .failing fs ctx f
  | .ok props =>
    match props.get? "url" with
    | none => .failing fs ctx (.of (.urlNeeded name))
    | some url =>
      saving ⟨r.connections.insert name props⟩ env (savedWords name "set in" env) fs
        (typed ctx (.read url))

/-- Removes a connection. -/
def unsetting (r : Registry) (env : Path) (name : String) (fs : FileSystem) (ctx : Context) :
    Outcome :=
  if r.connections.contains name then
    saving ⟨r.connections.erase name⟩ env (savedWords name "removed from" env) fs ctx
  else .failing fs ctx (.of (.connectionNotFound name))

/-- Reaches a remote location, which is then found not to be supported. -/
def reaching (s : Surroundings) (name : String) (url : Url) : Failure :=
  match Location.probe s.network url with
  | .error f => f
  | .ok () => .of (.unsupportedScheme name url.scheme)

/-- What a search was asked for. -/
def searchValue (pattern : Option String) (recursive columns : Bool) : Value :=
  .object
    [("pattern", .ofOption pattern), ("recursive", .bool recursive), ("columns", .bool columns)]

/-- The line about a stream. -/
def streamLine (fs : FileSystem) (columns : Bool) (path : Path) : String :=
  if columns then path.text ++ "\t" ++ ", ".intercalate (Discovery.columns fs path) ++ "\n"
  else path.text ++ "\n"

/-- The log message about the number of streams. -/
def foundMessage (count : Nat) : Output :=
  .log ⟨.info, "ferry::commands::conns", "found " ++ Numeric.decimal count ++ " streams", []⟩

/-- Lists the streams of a connection. -/
def discovering (s : Surroundings) (r : Registry) (name : String) (pattern : Option String)
    (recursive columns : Bool) (fs : FileSystem) (ctx : Context) : Outcome :=
  match r.lookup name with
  | .error f => .failing fs ctx f
  | .ok l =>
    let ctx := Members.set (typed ctx l) "discover_options" (searchValue pattern recursive columns)
    match l with
    | .remote url => .failing fs ctx (reaching s name url)
    | .file root =>
      match Discovery.search fs root pattern recursive s.isCancelled with
      | .error f => .failing fs ctx f
      | .ok streams =>
        .saying fs ctx
          (streams.map (fun p => .stdout (streamLine fs columns p)) ++
            [foundMessage streams.length])

/-- The log message about the number of queries. -/
def queryMessage (count : Nat) (name : String) : Output :=
  .log
    ⟨.debug, "ferry::commands::conns", Numeric.decimal count ++ " queries for " ++ name, []⟩

/-- Runs queries on a connection, as far as that is supported. -/
def querying (s : Surroundings) (r : Registry) (name : String) (queries : List String)
    (fs : FileSystem) (ctx : Context) : Outcome :=
  match r.lookup name with
  | .error f => .failing fs ctx f
  | .ok l =>
    match l, l.family with
    | .remote url, .database =>
      ⟨fs, typed ctx l, [queryMessage queries.length name], .error (reaching s name url)⟩
    | _, _ => .failing fs (typed ctx l) (.of (.fileConnection name))

/-- Performs an action, given the path of the connections file. -/
def execute (s : Surroundings) (env : Path) (action : ConnectionAction) (fs : FileSystem)
    (ctx : Context) : Outcome :=
  match Registry.load fs env with
  | .error f => .failing fs ctx f
  | .ok r =>
    match action with
    | .list => .saying fs ctx [.stdout r.table]
    | .test name => testing s r name fs ctx
    | .set name arguments => setting r env name arguments fs ctx
    | .unset name => unsetting r env name fs ctx
    | .discover name pattern recursive columns =>
      discovering s r name pattern recursive columns fs ctx
    | .exec name queries => querying s r name queries fs ctx

end ConnectionAction

end Haulage
