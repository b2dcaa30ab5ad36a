import RideTelemetry.Decimal.Reading

/-! The command line: a command with its arguments, and options that may stand anywhere behind the
command that knows them. Words are taken from left to right. An option keeps its value aside until
the next word asks for order, so a word that nobody knows is reported before a bad value in front
of it. -/

namespace RideTelemetry

inductive Command where
  | list
  /-- Analyse sessions over a time window. -/
  | filter (ids : List String) (start stop : Option Double) (pretty : Bool)

structure Invocation where
  /-- Path of the settings file, without its extension. -/
  config : String
  command : Command

namespace CommandLine

/-- Why a command line is not run. -/
inductive Refusal where
  | help
  | helpForNothing
  | commandMissing
  | commandUnknown
  | idsMissing
  | wordUnknown
  | valueMissing
  /-- A value for an option that takes none. -/
  | valueUnwanted
  | notANumber
  | givenTwice
  deriving DecidableEq

/-- The words for a refusal. -/
def Refusal.message : Refusal → String
  | .help | .helpForNothing =>
    "Usage: [--config PATH] list\n" ++
      "       [--config PATH] filter [--start SECONDS] [--end SECONDS] [--pretty] ID..."
  | .commandMissing => "a command is missing"
  | .commandUnknown => "unknown command"
  | .idsMissing => "no session id was given"
  | .wordUnknown => "unexpected argument"
  | .valueMissing => "an option lacks its value"
  | .valueUnwanted => "a value for an option that takes none"
  | .notANumber => "invalid number"
  | .givenTwice => "an option was given twice"

def defaultConfig : String := "config/analysis"

/-- Where on the line a word stands: before a command, or behind one. -/
inductive Level where
  | top
  | list
  | filter
  deriving DecidableEq

/-- Options with a value. -/
inductive Setting where
  | config
  | start
  | stop
  deriving DecidableEq

/-- Times may be negative, so their options take words with a dash in front. -/
def Setting.takesDashes : Setting → Bool
  | .config => false
  | .start => true
  | .stop => true

/-- What a long option is. -/
inductive LongOption where
  | help
  | pretty
  | setting (setting : Setting)
  deriving DecidableEq

def longOption? (level : Level) (name : String) : Option LongOption :=
  if name == "help" then some .help
  else if name == "config" then some (.setting .config)
  else if level != .filter then none
  else if name == "start" then some (.setting .start)
  else if name == "end" then some (.setting .stop)
  else if name == "pretty" then some .pretty
  else none

/-- What the words of one level have said so far. `pending` holds the last option whose value is
not stored yet; it has no value while it waits for one. -/
structure State where
  config : Option String
  start : Option Double
  stop : Option Double
  pretty : Bool
  ids : List String
  pending : Option (Setting × Option String)

def State.empty : State := ⟨none, none, none, false, [], none⟩

/-- The setting that the next word belongs to. -/
def State.waiting? (state : State) : Option Setting :=
  match state.pending with
  | some (setting, none) => some setting
  | _ => none

def storeNumber (before : Option Double) (text : String) : Except Refusal (Option Double) :=
  match before, Decimal.read? text.toList with
  | some _, _ => .error .givenTwice
  | none, some value => .ok (some value)
  | none, none => .error .notANumber

/-- Stores a value; a second value for the same setting is refused before it is looked at. -/
def State.store (state : State) (setting : Setting) (text : String) : Except Refusal State :=
  match setting with
  | .config =>
    match state.config with
    | some _ => .error .givenTwice
    | none => .ok { state with config := some text }
  | .start => (storeNumber state.start text).map fun start => { state with start }
  | .stop => (storeNumber state.stop text).map fun stop => { state with stop }

/-- Stores the value that was kept aside. -/
def State.settle (state : State) : Except Refusal State :=
  match state.pending with
  | none => .ok state
  | some (_, none) => .error .valueMissing
  | some (setting, some text) => { state with pending := none }.store setting text

/-- An option with a value behind an equals sign, or with its value still to come. -/
def State.name (state : State) (setting : Setting) (attached : Option String) :
    Except Refusal State :=
  match state.settle with
  | .error refusal => .error refusal
  | .ok settled =>
    match attached with
    | some text => settled.store setting text
    | none => .ok { settled with pending := some (setting, none) }

def State.setPretty (state : State) : Except Refusal State :=
  match state.settle with
  | .error refusal => .error refusal
  | .ok settled =>
    if settled.pretty then .error .givenTwice else .ok { settled with pretty := true }

/-- Help ends the line, but a value that was kept aside has to be good. -/
def State.askHelp (state : State) : Refusal :=
  match state.settle with
  | .error refusal => refusal
  | .ok _ => .help

/-- A name, and what stands behind the first equals sign. -/
def splitAtEquals (word : List Char) : String × Option String :=
  let name := String.ofList (word.takeWhile (· != '='))
  match word.dropWhile (· != '=') with
  | [] => (name, none)
  | _ :: value => (name, some (String.ofList value))

/-- The word of a long option, without its dashes. -/
def State.long (level : Level) (state : State) (word : List Char) : Except Refusal State :=
  let (name, attached) := splitAtEquals word
  match longOption? level name, attached with
  | none, _ => .error .wordUnknown
  | some (.setting setting), attached => state.name setting attached
  | some .help, none => .error state.askHelp
  | some .pretty, none => state.setPretty
  | some _, some _ => .error .valueUnwanted

/-- The word of a short option, without its dash. A value may follow at once, with an equals sign or
without. -/
def State.short (state : State) : List Char → Except Refusal State
  | 'h' :: _ => .error state.askHelp
  | 'c' :: [] => state.name .config none
  | 'c' :: '=' :: value => state.name .config (some (String.ofList value))
  | 'c' :: value => state.name .config (some (String.ofList value))
  | _ => .error .wordUnknown

/-- What a word turns out to be. -/
inductive Reading where
  /-- An option, or the value of one. -/
  | taken (state : State)
  /-- From here on no word is an option. -/
  | onlyWords
  | plain

/-- Reads a word that may be an option. -/
def State.readWord (level : Level) (state : State) (word : String) : Except Refusal Reading :=
  let value (setting : Setting) : Reading :=
    .taken { state with pending := some (setting, some word) }
  match state.waiting?, word.toList with
  | some .start, _ => .ok (value .start)
  | some .stop, _ => .ok (value .stop)
  | _, ['-', '-'] => .ok .onlyWords
  | _, '-' :: '-' :: rest => (state.long level rest).map .taken
  | _, '-' :: c :: rest => (state.short (c :: rest)).map .taken
  | some .config, _ => .ok (value .config)
  | none, _ => .ok .plain

/-- Takes the words behind a command. `options` is false once no more words can be options. -/
def behind (level : Level) (options : Bool) (state : State) :
    List String → Except Refusal State
  | [] => state.settle
  | word :: rest =>
    let plain (options : Bool) : Except Refusal State :=
      if level = .filter then
        match state.settle with
        | .error refusal => .error refusal
        | .ok settled =>
          behind level options { settled with ids := settled.ids ++ [word] } rest
      else .error .wordUnknown
    if options then
      match state.readWord level word with
      | .error refusal => .error refusal
      | .ok (.taken taken) => behind level true taken rest
      | .ok .onlyWords => behind level false state rest
      | .ok .plain => plain true
    else plain false

/-- Names of the commands, help among them. -/
def isCommand (word : String) : Bool := word == "list" || word == "filter" || word == "help"

/-- Help knows the commands by name, one at a time. -/
def helpOn : List String → Refusal
  | [] => .help
  | [word] => if isCommand word then .help else .commandUnknown
  | _ => .commandUnknown

/-- The settings file: behind the command, else before it, else the default. -/
def configOf (top inner : State) : String := (inner.config.or top.config).getD defaultConfig

/-- A command with the words behind it. The words are judged before what stood in front of the
command. -/
def command (top : State) (name : String) (rest : List String) : Except Refusal Invocation := do
  if name == "help" then
    throw (helpOn rest)
  else if name == "list" then
    let inner ← behind .list true .empty rest
    let top ← top.settle
    return ⟨configOf top inner, .list⟩
  else
    let inner ← behind .filter true .empty rest
    if inner.ids.isEmpty then throw .idsMissing
    let top ← top.settle
    return ⟨configOf top inner, .filter inner.ids inner.start inner.stop inner.pretty⟩

/-- A line that ends before a command. -/
def withoutCommand (top : State) : Refusal :=
  match top.settle with
  | .error refusal => refusal
  | .ok settled => if settled.config.isNone then .helpForNothing else .commandMissing

/-- Takes the words up to the command. -/
def before (options : Bool) (state : State) : List String → Except Refusal Invocation
  | [] => .error (withoutCommand state)
  | word :: rest =>
    if options then
      match state.readWord .top word with
      | .error refusal => .error refusal
      | .ok (.taken taken) => before true taken rest
      | .ok .onlyWords => before false state rest
      | .ok .plain => if isCommand word then command state word rest else .error .commandUnknown
    else .error (if isCommand word then .wordUnknown else .commandUnknown)

/-- Reads a command line, without the name of the program. -/
def parse (words : List String) : Except Refusal Invocation := before true .empty words

end CommandLine

end RideTelemetry
