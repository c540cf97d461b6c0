import ReplicaRing.Config
import ReplicaRing.Text.Numeral

/-!
The words on the command line. Two options hold for every mode and may stand before or after it; the
others belong to one mode. What is not on the command line comes from the environment, and what is
not there either has a default. Words are read from left to right. An option waits for its value,
and is examined when the next option or the end is reached, so a word that is no option at all is
found before an option that has a bad value or none.
-/
namespace ReplicaRing.Options

/-- How a run was asked for that cannot start. -/
inductive Fault
  /-- A value is missing or empty. -/
  | invalidValue
  /-- A value is not of its kind. -/
  | valueValidation
  | unknownArgument
  /-- An option is given twice. -/
  | argumentConflict
  /-- A flag is given a value. -/
  | tooManyValues
  | invalidSubcommand
  | missingSubcommand
  | displayHelp
  | displayVersion
  /-- Nothing is given at all. -/
  | displayHelpOnMissing
deriving DecidableEq, Repr

/-- The kind of a fault, in one word. -/
def Fault.kind : Fault → String
  | invalidValue => "InvalidValue"
  | valueValidation => "ValueValidation"
  | unknownArgument => "UnknownArgument"
  | argumentConflict => "ArgumentConflict"
  | tooManyValues => "TooManyValues"
  | invalidSubcommand => "InvalidSubcommand"
  | missingSubcommand => "MissingSubcommand"
  | displayHelp => "DisplayHelp"
  | displayVersion => "DisplayVersion"
  | displayHelpOnMissing => "DisplayHelpOnMissingArgumentOrSubcommand"

/-- The kinds of values. -/
inductive Kind
  | text | path | port | word64 | endpoint
deriving DecidableEq, Repr

/-- An option: its name, its environment variable, its kind, and its default if it has one. -/
structure Spec where
  name : String
  envName : String
  kind : Kind
  fallback : Option String := none
deriving DecidableEq, Repr

/-- A number may have a sign, and a minus sign only before a zero. -/
def port? (value : String) : Option UInt16 :=
  (Text.signed? UInt16.size value.toList).map UInt16.ofNat

def word64? (value : String) : Option Nat := Text.unsigned? UInt64.size value.toList

def Kind.check (kind : Kind) (value : String) : Except Fault Unit :=
  match kind with
  | .text => .ok ()
  | .path => if value.isEmpty then .error .invalidValue else .ok ()
  | .port => if (port? value).isSome then .ok () else .error .valueValidation
  | .word64 => if (word64? value).isSome then .ok () else .error .valueValidation
  | .endpoint => if (Endpoint.parse? value).isSome then .ok () else .error .valueValidation

inductive Mode
  | member | introducer
deriving DecidableEq, Repr

def Mode.ofName? : String → Option Mode
  | "member" => some .member
  | "introducer" => some .introducer
  | _ => none

/-- The options that hold for every mode. -/
def globals : List Spec :=
  [⟨"log-level", "CLUSTER_LOG_LEVEL", .text, some "info"⟩,
    ⟨"log-file", "CLUSTER_LOG_FILE", .path, none⟩]

def Mode.specs : Mode → List Spec
  | .member =>
    [⟨"host", "CLUSTER_HOST", .text, some "127.0.0.1"⟩,
      ⟨"port", "CLUSTER_PORT", .port, some "5000"⟩,
      ⟨"introducer", "CLUSTER_INTRODUCER", .endpoint, none⟩,
      ⟨"storage-dir", "CLUSTER_STORAGE_DIR", .path, some "storage"⟩,
      ⟨"protocol-period-ms", "CLUSTER_PROTOCOL_PERIOD_MS", .word64, some "1500"⟩,
      ⟨"ping-timeout-ms", "CLUSTER_PING_TIMEOUT_MS", .word64, some "500"⟩,
      ⟨"monitors", "CLUSTER_MONITORS", .word64, some "1"⟩,
      ⟨"repair-period-ms", "CLUSTER_REPAIR_PERIOD_MS", .word64, some "10000"⟩,
      ⟨"replication-factor", "CLUSTER_REPLICATION_FACTOR", .word64, some "4"⟩,
      ⟨"connect-timeout-ms", "CLUSTER_CONNECT_TIMEOUT_MS", .word64, some "2000"⟩,
      ⟨"io-timeout-ms", "CLUSTER_IO_TIMEOUT_MS", .word64, some "10000"⟩,
      ⟨"transfer-timeout-ms", "CLUSTER_TRANSFER_TIMEOUT_MS", .word64, some "60000"⟩]
  | .introducer =>
    [⟨"host", "CLUSTER_INTRODUCER_HOST", .text, some "127.0.0.1"⟩,
      ⟨"port", "CLUSTER_INTRODUCER_PORT", .port, some "4999"⟩]

/-- Where a value comes from, the weaker first. -/
inductive Source
  | fallback | environment | commandLine
deriving DecidableEq, Repr

structure Setting where
  name : String
  value : String
  source : Source
deriving DecidableEq, Repr

/-- The settings so far, and the option that is not examined yet. -/
structure Scan where
  settings : List Setting := []
  pending : Option (Spec × Option String) := none
deriving DecidableEq, Repr

namespace Scan

def has (s : Scan) (name : String) : Bool := s.settings.any (·.name == name)

def accept (s : Scan) (spec : Spec) (value : String) (source : Source) : Except Fault Scan := do
  spec.kind.check value
  return { s with settings := s.settings ++ [⟨spec.name, value, source⟩] }

/-- Examines the option that waits: it has a value, is new, and its value is of its kind. -/
def settle (s : Scan) : Except Fault Scan :=
  match s.pending with
  | none => .ok s
  | some (_, none) => .error .invalidValue
  | some (spec, some value) =>
    let s := { s with pending := none }
    if s.has spec.name then .error .argumentConflict else s.accept spec value .commandLine

/-- Whether the next word is the value of an option. -/
def awaitsValue (s : Scan) : Bool :=
  match s.pending with
  | some (_, none) => true
  | _ => false

/-- A word that starts with two dashes. -/
def long (s : Scan) (specs : List Spec) (top : Bool) (word : List Char) : Except Fault Scan :=
  let name := String.ofList (word.takeWhile (· ≠ '='))
  let attached := ((word.dropWhile (· ≠ '=')).tail?).map String.ofList
  let flag? : Option Fault :=
    if name = "help" then some .displayHelp
    else if name = "version" ∧ top then some .displayVersion
    else none
  match flag?, attached with
  | some _, some _ => .error .tooManyValues
  | some flag, none => do
    discard s.settle
    .error flag
  | none, _ =>
    match specs.find? (·.name == name) with
    | none => .error .unknownArgument
    | some spec => do
      let s ← s.settle
      let s := { s with pending := some (spec, attached) }
      if attached.isSome then s.settle else return s

/-- A word that starts with one dash. Its first letter decides. -/
def short (s : Scan) (top : Bool) (letter : Char) : Except Fault Scan :=
  if letter = 'h' then do
    discard s.settle
    .error .displayHelp
  else if letter = 'V' ∧ top then do
    discard s.settle
    .error .displayVersion
  else .error .unknownArgument

/-- An option word, or the value of an option. -/
def word? (s : Scan) (specs : List Spec) (top : Bool) (word : String) :
    Option (Except Fault Scan) :=
  match word.toList with
  | '-' :: '-' :: rest => some (s.long specs top rest)
  | '-' :: letter :: _ => some (s.short top letter)
  | _ =>
    match s.pending with
    | some (spec, none) => some (.ok { s with pending := some (spec, some word) })
    | _ => none

/-- The last word is read: what is missing comes from the environment, then from the defaults. -/
def finish (s : Scan) (specs : List Spec) (env : String → Option String) :
    Except Fault (List Setting) := do
  let s ← s.settle
  let s ← specs.foldlM
    (fun s spec =>
      match if s.has spec.name then none else env spec.envName with
      | some value => s.accept spec value .environment
      | none => .ok s)
    s
  let missing := specs.filter (!s.has ·.name)
  return s.settings ++ missing.filterMap fun spec =>
    spec.fallback.map (⟨spec.name, ·, .fallback⟩)

end Scan

/-- The words behind the mode. All of them are options. -/
def scanMode (specs : List Spec) : Scan → List String → Except Fault Scan
  | s, [] => .ok s
  | s, word :: rest =>
    if word = "--" then
      if rest.isEmpty then .ok s else .error .unknownArgument
    else
      match s.word? specs false word with
      | some s => s.bind (scanMode specs · rest)
      | none => .error .unknownArgument

/-- A question for help on subcommands. -/
def askHelp : List String → Fault
  | [] => .displayHelp
  | [topic] =>
    if (Mode.ofName? topic).isSome ∨ topic = "help" then .displayHelp else .invalidSubcommand
  | _ => .invalidSubcommand

/-- The words before the mode, the mode and the words behind it. -/
def scanTop : Scan → List String → Except Fault (Scan × Option (Mode × List String))
  | s, [] => .ok (s, none)
  | s, word :: rest =>
    if word = "--" then
      match rest with
      | [] => .ok (s, none)
      | next :: _ =>
        if (Mode.ofName? next).isSome ∨ next = "help" then .error .unknownArgument
        else .error .invalidSubcommand
    else
      match s.awaitsValue, Mode.ofName? word with
      | false, some mode => .ok (s, some (mode, rest))
      | awaits, _ =>
        if word = "help" ∧ !awaits then .error (askHelp rest)
        else
          match s.word? globals true word with
          | some s => s.bind (scanTop · rest)
          | none => .error .invalidSubcommand

/-- The stronger of two settings of one name; of equals, the later. -/
def Setting.stronger (outer inner : Setting) : Setting :=
  if outer.source = .commandLine ∧ inner.source ≠ .commandLine then outer
  else if outer.source = .environment ∧ inner.source = .fallback then outer
  else inner

inductive Run
  | member (config : MemberConfig)
  | introducer (host : String) (port : UInt16)
deriving DecidableEq, Repr

end Options

/-- What a run is asked to do. -/
structure Options where
  logLevel : String
  logFile : Option String
  run : Options.Run
deriving DecidableEq, Repr

namespace Options

def lookup (settings : List Setting) (name : String) : Option String :=
  (settings.find? (·.name == name)).map Setting.value

/-- The value of a global option, which may be set before and behind the mode. -/
def globalValue (outer inner : List Setting) (name : String) : Option String :=
  match outer.find? (·.name == name), inner.find? (·.name == name) with
  | some o, some i => some (o.stronger i).value
  | o, i => (o.or i).map Setting.value

/-- The run that examined settings ask for. -/
def Mode.run (mode : Mode) (settings : List Setting) : Run :=
  let text (name : String) : String := (lookup settings name).getD ""
  let number (name : String) : Nat := ((lookup settings name).bind word64?).getD 0
  let port : UInt16 := ((lookup settings "port").bind port?).getD 0
  match mode with
  | .member => .member
    { host := text "host"
      port
      introducer := lookup settings "introducer"
      storageRoot := text "storage-dir"
      protocolPeriodMs := number "protocol-period-ms"
      pingTimeoutMs := number "ping-timeout-ms"
      monitors := number "monitors"
      repairPeriodMs := number "repair-period-ms"
      replicationFactor := number "replication-factor"
      transport :=
        { connectMs := number "connect-timeout-ms"
          ioMs := number "io-timeout-ms"
          transferMs := number "transfer-timeout-ms" } }
  | .introducer => .introducer (text "host") port

/-- The environment variables that can set an option. -/
def envNames : List String :=
  (globals ++ Mode.specs .member ++ Mode.specs .introducer).map (·.envName)

def parse (words : List String) (env : String → Option String) : Except Fault Options := do
  let (top, mode?) ← scanTop {} words
  match mode? with
  | none =>
    let settings ← top.finish globals env
    if settings.any (·.source != .fallback) then .error .missingSubcommand
    else .error .displayHelpOnMissing
  | some (mode, rest) =>
    let specs := mode.specs ++ globals
    let inner ← (← scanMode specs {} rest).finish specs env
    let outer ← top.finish globals env
    return {
      logLevel := (globalValue outer inner "log-level").getD ""
      logFile := globalValue outer inner "log-file"
      run := mode.run inner }

end Options

end ReplicaRing
