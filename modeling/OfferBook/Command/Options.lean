import OfferBook.Address

/-!
# Options of the command line

The command line names one of three commands. Options that concern every command may stand before
the command or behind it, and one given behind it counts; the depth of the live view may stand
behind its command only. An option takes one value, as the next argument or attached to its name,
and may be given once on either side of the command.

Arguments are read from left to right and the first fault ends the reading. The value of an
option is judged only when something follows it that is not itself at fault, so an unknown option
is reported before a bad value in front of it.
-/

namespace OfferBook.Command

/-- Why a command line says nothing that can be run, requests for help and version included. -/
inductive UsageFault where
  | displayHelp
  | displayVersion
  | displayHelpOnMissingArgumentOrSubcommand
  | missingSubcommand
  | invalidSubcommand
  | unknownArgument
  | invalidValue
  | valueValidation
  | argumentConflict
  | tooManyValues
  deriving DecidableEq

/-- The name of a usage fault. -/
def UsageFault.name : UsageFault → String
  | displayHelp => "DisplayHelp"
  | displayVersion => "DisplayVersion"
  | displayHelpOnMissingArgumentOrSubcommand => "DisplayHelpOnMissingArgumentOrSubcommand"
  | missingSubcommand => "MissingSubcommand"
  | invalidSubcommand => "InvalidSubcommand"
  | unknownArgument => "UnknownArgument"
  | invalidValue => "InvalidValue"
  | valueValidation => "ValueValidation"
  | argumentConflict => "ArgumentConflict"
  | tooManyValues => "TooManyValues"

/-- What to do. -/
inductive Action where
  | snapshot
  | trace
  | live (depth : Nat)
  deriving DecidableEq

/-- A command line that was understood. -/
structure Options where
  action : Action
  rpc : String
  rpcThrottle : Option Nat
  orderBook : Option Address
  reader : Option Address
  aggregator : Option Address
  block : Option Nat
  numBlocks : Option Nat
  source : Option Address
  destination : Option Address
  tickSpacing : UInt64
  pageSize : UInt64
  retained : Nat
  deriving DecidableEq

/-! ## Values -/

/-- The number of a sequence of decimal digits, which must not be empty. -/
def digits? (cs : List Char) : Option Nat :=
  if cs.isEmpty || !cs.all Char.isDigit then none
  else some (cs.foldl (fun n c => n * 10 + (c.toNat - '0'.toNat)) 0)

/-- A number of 64 bits: decimal digits after an optional plus sign. -/
def number64? (text : String) : Option Nat :=
  let digits := match text.toList with
    | '+' :: rest => rest
    | cs => cs
  (digits? digits).bind fun n => if n ≤ Word.max64 then some n else none

/-- A number of 32 bits: decimal digits after an optional sign. A minus sign leaves zero only. -/
def number32? (text : String) : Option Nat :=
  match text.toList with
  | '-' :: rest => (digits? rest).bind fun n => if n = 0 then some 0 else none
  | '+' :: rest => (digits? rest).bind fun n => if n < 0x100000000 then some n else none
  | cs => (digits? cs).bind fun n => if n < 0x100000000 then some n else none

/-- The options that take a value. -/
inductive Setting where
  | rpc | rpcThrottle | orderBook | reader | aggregator | block | numBlocks | source
  | destination | tickSpacing | pageSize | retained | depth
  deriving DecidableEq

namespace Setting

/-- The settings that concern every command. -/
def shared : List Setting :=
  [rpc, rpcThrottle, orderBook, reader, aggregator, block, numBlocks, source, destination,
   tickSpacing, pageSize, retained]

/-- The name of a setting on the command line. -/
def long : Setting → String
  | rpc => "rpc"
  | rpcThrottle => "rpc-throttle"
  | orderBook => "mangrove"
  | reader => "reader"
  | aggregator => "multicall"
  | block => "block"
  | numBlocks => "num-blocks"
  | source => "src"
  | destination => "dest"
  | tickSpacing => "tick-spacing"
  | pageSize => "page-size"
  | retained => "retained-snapshots"
  | depth => "depth"

/-- The letter of a setting on the command line. -/
def short? : Setting → Option Char
  | depth => some 'd'
  | _ => none

/-- Whether a text is a value of the setting. -/
def accepts (s : Setting) (value : String) : Bool :=
  match s with
  | rpc => true
  | rpcThrottle => (number32? value).isSome
  | orderBook | reader | aggregator | source | destination => (Address.ofText? value).isSome
  | block | numBlocks | tickSpacing | pageSize | retained | depth => (number64? value).isSome

end Setting

/-! ## Reading arguments -/

/-- The commands by name. -/
inductive Verb where
  | snapshot | trace | live
  deriving DecidableEq

/-- The command of a name. -/
def Verb.ofName? : String → Option Verb
  | "snapshot" => some .snapshot
  | "trace" => some .trace
  | "book" => some .live
  | _ => none

/-- Where in the command line an argument stands: in front of the command or behind it. -/
inductive Side where
  | front
  | behind (verb : Verb)
  deriving DecidableEq

/-- The settings that may be given on a side. -/
def Side.settings : Side → List Setting
  | front | behind .snapshot | behind .trace => Setting.shared
  | behind .live => .depth :: Setting.shared

/-- Values accepted so far on one side, and the setting whose value is still to be judged: it has
a value, or it waits for one. -/
structure Given where
  accepted : List (Setting × String)
  open? : Option (Setting × Option String)
  deriving DecidableEq

namespace Given

/-- Nothing is given yet. -/
def none : Given := ⟨[], .none⟩

/-- Whether the next argument is the value of a setting. -/
def waits (g : Given) : Bool :=
  match g.open? with
  | some (_, .none) => true
  | _ => false

/-- Accepts a value of a setting. -/
def accept (g : Given) (s : Setting) (value : String) : Except UsageFault Given :=
  if g.accepted.any fun given => given.1 = s then .error .argumentConflict
  else if s.accepts value then .ok ⟨g.accepted ++ [(s, value)], .none⟩
  else .error .valueValidation

/-- Judges the setting that is still open. -/
def settle (g : Given) : Except UsageFault Given :=
  match g.open? with
  | .none => .ok g
  | some (_, .none) => .error .invalidValue
  | some (s, some value) => { g with open? := .none }.accept s value

/-- A setting is named and its value is attached or follows. -/
def name (g : Given) (s : Setting) (attached : Option String) : Except UsageFault Given := do
  let g ← g.settle
  match attached with
  | some value => g.accept s value
  | .none => .ok { g with open? := some (s, .none) }

/-- The value that a setting waits for. -/
def fill (g : Given) (value : String) : Given :=
  match g.open? with
  | some (s, .none) => { g with open? := some (s, some value) }
  | _ => g

/-- The accepted value of a setting. -/
def value? (g : Given) (s : Setting) : Option String :=
  (g.accepted.find? fun given => given.1 = s).map Prod.snd

end Given

/-- The name of a long option and the value attached to it. -/
def splitAttached (cs : List Char) : String × Option String :=
  match cs.dropWhile (· ≠ '=') with
  | _ :: value => (String.ofList (cs.takeWhile (· ≠ '=')), some (String.ofList value))
  | [] => (String.ofList cs, none)

/-- Reads a long option, given without its dashes. -/
def readLong (side : Side) (g : Given) (cs : List Char) : Except UsageFault Given :=
  let (name, attached) := splitAttached cs
  let flag (fault : UsageFault) : Except UsageFault Given :=
    if attached.isSome then .error .tooManyValues else g.settle.bind fun _ => .error fault
  if name = "help" then flag .displayHelp
  else if name = "version" ∧ side = .front then flag .displayVersion
  else match side.settings.find? fun s => s.long = name with
    | some s => g.name s attached
    | none => .error .unknownArgument

/-- Reads the letters behind a single dash. -/
def readShort (side : Side) (g : Given) : List Char → Except UsageFault Given
  | [] => .ok g
  | c :: rest =>
    if c = 'h' then g.settle.bind fun _ => .error .displayHelp
    else if c = 'V' ∧ side = .front then g.settle.bind fun _ => .error .displayVersion
    else match side.settings.find? fun s => s.short? = some c with
      | some s =>
        match rest with
        | [] => g.name s none
        | '=' :: value => g.name s (some (String.ofList value))
        | value => g.name s (some (String.ofList value))
      | none => .error .unknownArgument

/-- Reads an argument that begins with a dash, or is the value of a setting, or has no place. -/
def readArgument (side : Side) (g : Given) (argument : String) : Except UsageFault Given :=
  match argument.toList with
  | '-' :: '-' :: cs => readLong side g cs
  | '-' :: c :: cs => readShort side g (c :: cs)
  | _ =>
    if g.waits then .ok (g.fill argument)
    else match side with
      | .front => .error .invalidSubcommand
      | .behind _ => .error .unknownArgument

/-- Whether an argument names a command or the request for help. -/
def namesCommand (argument : String) : Bool :=
  argument == "help" || (Verb.ofName? argument).isSome

/-- An argument behind the separator, where nothing has a place. -/
def strayFault (side : Side) (argument : String) : UsageFault :=
  match side with
  | .front => if namesCommand argument then .unknownArgument else .invalidSubcommand
  | .behind _ => .unknownArgument

/-- Reads the arguments behind a command. -/
def readBehind (verb : Verb) (g : Given) : List String → Except UsageFault Given
  | [] => g.settle
  | "--" :: rest =>
    match rest with
    | [] => g.settle
    | stray :: _ => .error (strayFault (.behind verb) stray)
  | argument :: rest => do
    let g ← readArgument (.behind verb) g argument
    readBehind verb g rest

/-- The answer to a request for help: on everything, or on the commands that are named. -/
def helpFault : List String → UsageFault
  | [] => .displayHelp
  | [name] => if namesCommand name then .displayHelp else .invalidSubcommand
  | _ => .invalidSubcommand

/-- What was given in front of a command, the command, and what was given behind it. -/
structure Parsed where
  front : Given
  verb : Verb
  behind : Given

/-- Reads the arguments from the first one on. -/
def readFront (g : Given) : List String → Except UsageFault Parsed
  | [] => do
    let g ← g.settle
    if g.accepted.isEmpty then .error .displayHelpOnMissingArgumentOrSubcommand
    else .error .missingSubcommand
  | "--" :: rest =>
    match rest with
    | [] => do
      let g ← g.settle
      if g.accepted.isEmpty then .error .displayHelpOnMissingArgumentOrSubcommand
      else .error .missingSubcommand
    | stray :: _ => .error (strayFault .front stray)
  | argument :: rest =>
    if !g.waits && argument == "help" then .error (helpFault rest)
    else match if g.waits then none else Verb.ofName? argument with
      | some verb => do
        let behind ← readBehind verb .none rest
        let front ← g.settle
        .ok ⟨front, verb, behind⟩
      | none => do
        let g ← readArgument .front g argument
        readFront g rest

/-! ## Options -/

/-- The endpoint that is used when none is given. -/
def defaultRpc : String := "https://arb1.arbitrum.io/rpc"

namespace Parsed

/-- The value of a setting: the one behind the command, or else the one in front of it. -/
def value? (p : Parsed) (s : Setting) : Option String := (p.behind.value? s).or (p.front.value? s)

/-- An address that is given. -/
def address? (p : Parsed) (s : Setting) : Option Address := (p.value? s).bind Address.ofText?

/-- A number that is given. -/
def number? (p : Parsed) (s : Setting) : Option Nat := (p.value? s).bind number64?

/-- The options with the usual values for what is not given. -/
def options (p : Parsed) : Options where
  action := match p.verb with
    | .snapshot => .snapshot
    | .trace => .trace
    | .live => .live ((p.number? .depth).getD 10)
  rpc := (p.value? .rpc).getD defaultRpc
  rpcThrottle := (p.value? .rpcThrottle).bind number32?
  orderBook := p.address? .orderBook
  reader := p.address? .reader
  aggregator := p.address? .aggregator
  block := p.number? .block
  numBlocks := p.number? .numBlocks
  source := p.address? .source
  destination := p.address? .destination
  tickSpacing := UInt64.ofNat ((p.number? .tickSpacing).getD 1)
  pageSize := UInt64.ofNat ((p.number? .pageSize).getD 100)
  retained := (p.number? .retained).getD 30

end Parsed

/-- The options of a command line, the program's name not included. -/
def Options.ofArguments (arguments : List String) : Except UsageFault Options :=
  (readFront .none arguments).map Parsed.options

end OfferBook.Command
