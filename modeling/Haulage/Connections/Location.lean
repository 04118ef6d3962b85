import Haulage.Failure
import Haulage.Text.Basic
import Haulage.Url.Basic

/-!
# Locations

Where data lives: at a path of the local file system, or behind a URL. A text that starts with
`file://` is a path; any other is a remote location if it is a URL whose scheme has more than one
letter, else a path. A local path is usable when it leads somewhere, a remote location when its host
accepts a connection. The network is given by what it answers to a host and a port.
-/

set_option autoImplicit false

namespace Haulage

open Haulage.Text

/-- A place that data is read from or written to. -/
inductive Location where
  | file (path : Path)
  | remote (url : Url)
  deriving Repr, DecidableEq

/-- What kind of connector serves a location. -/
inductive Family where
  | file
  | database
  deriving Repr, DecidableEq

/-- The label of a family. -/
def Family.label : Family → String
  | .file => "file"
  | .database => "db"

namespace Location

/-- The location that a text names. -/
def read (raw : String) : Location :=
  let raw := trim raw
  match dropLeadText? "file://" raw with
  | some path => .file ⟨path⟩
  | none =>
    match Url.read raw with
    | .ok url => if 1 < url.scheme.utf8ByteSize then .remote url else .file ⟨raw⟩
    | .error _ => .file ⟨raw⟩

/-- Schemes served by connectors for files. -/
def fileSchemes : List String :=
  ["file", "s3", "gs", "azure", "sftp", "ftp", "http", "https"]

/-- The connector type of a location. -/
def connectorType : Location → String
  | .file _ => "file"
  | .remote url =>
    if url.scheme = "postgresql" then "postgres"
    else if url.scheme = "mssql" then "sqlserver"
    else url.scheme

/-- The family of a location. -/
def family : Location → Family
  | .file _ => .file
  | .remote url => if url.scheme ∈ fileSchemes then .file else .database

/-- The location of a stream of this location: a path below a directory, or a path of its own; a
remote location stays as it is. -/
def withStream (fs : FileSystem) (base : Location) (stream : String) : Location :=
  match base with
  | .remote url => .remote url
  | .file path =>
    let stream := (dropLeadText? "file://" stream).getD stream
    if fs.hasDirectory path ∨ path.text.isEmpty then .file (path.join ⟨stream⟩) else .file ⟨stream⟩

/-- The port that a database scheme stands for. -/
def databasePort? (scheme : String) : Option Nat :=
  if scheme ∈ ["postgres", "postgresql", "redshift"] then some 5432
  else if scheme ∈ ["mysql", "mariadb", "starrocks"] then some 3306
  else if scheme ∈ ["sqlserver", "mssql"] then some 1433
  else if scheme = "oracle" then some 1521
  else if scheme = "mongodb" then some 27017
  else if scheme = "redis" then some 6379
  else if scheme = "clickhouse" then some 9000
  else if scheme ∈ ["snowflake", "bigquery", "databricks"] then some 443
  else if scheme = "sftp" then some 22
  else if scheme = "ftp" then some 21
  else none

end Location

/-! ## Probing -/

/-- What the network answers to a connection attempt. -/
abbrev Network := String → Nat → Except OsError Unit

namespace Network

/-- Whether a text looks like an IPv4 address to the name service. -/
def isNumeric (host : String) : Bool :=
  Url.endsInNumber host.toList &&
    (match Url.readIpv4 host.toList with
      | .ok _ => true
      | .error _ => false)

/-- Whether a text can be the name of a host. -/
def isName (host : String) : Bool :=
  !host.isEmpty && host.toList.all fun c => c.isAlphanum || c == '-' || c == '_' || c == '.'

/-- A machine without any network: addresses are unreachable and names unknown, its own name
aside. -/
def isolated : Network := fun host _ =>
  .error
    (if host = "localhost" ∨ isNumeric host then .networkUnreachable
    else if isName host then .noNameService
    else .unknownName)

end Network

namespace Location

/-- Connects to the host of a URL. -/
def probe (net : Network) (url : Url) : Attempt Unit :=
  match url.host? with
  | none => failWith (.noHost url.scheme)
  | some host =>
    match url.port?.or (databasePort? url.scheme) with
    | none => failWith (.noPort url.scheme)
    | some port => (Attempt.ofSystem (net host port)).during (.connect host port)

/-- Requires that a location is usable. -/
def check (net : Network) (fs : FileSystem) : Location → Attempt Unit
  | .file path => ((Attempt.ofSystem (fs.find path)).during (.stat path)).map fun _ => ()
  | .remote url => probe net url

end Location

end Haulage
