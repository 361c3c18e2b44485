/-!
# Requests on the command line

The arguments name a command and what it is to work on. Options may come in any order, letters
may share a dash, and after `--` nothing is an option. Arguments are taken in turn: one that asks
for help or for the version decides at once, and one that fits nowhere makes the whole call
unreadable.
-/

namespace LiveFacts

inductive Verb where
  | render | invert | run
  deriving DecidableEq, Repr

def Verb.ofName? : String → Option Verb
  | "render" => some .render
  | "invert" => some .invert
  | "run" => some .run
  | _ => none

inductive Command where
  | render (query : String)
  | invert (query : String)
  /-- Runs a query from one of the facts in a file. -/
  | run (file : String) (start : Nat) (query : String)
  deriving DecidableEq, Repr

inductive Topic where
  | program
  | verb (verb : Verb)
  | help
  deriving DecidableEq, Repr

inductive Request where
  | command (command : Command)
  | help (topic : Topic) (brief : Bool)
  | version
  deriving DecidableEq, Repr

inductive Setting where
  | facts | start
  deriving DecidableEq, Repr

inductive Flag where
  /-- Asks for more to be logged. -/
  | verbose
  | help (brief : Bool)
  | version
  /-- Gives a setting a value: this one, or else the next argument. -/
  | set (setting : Setting) (value? : Option String)
  deriving DecidableEq, Repr

namespace Flag

/-- Where flags may stand: some before the command, some after `run` alone. -/
def fits (verb? : Option Verb) : Flag → Bool
  | verbose | help _ => true
  | version => verb? = none
  | set .. => verb? = some .run

def attached? : List Char → Option String
  | [] => none
  | '=' :: value | value => some (String.ofList value)

/-- Letters behind one dash. Those after a letter that decides are not looked at. -/
def ofLetters? : List Char → Option Flag
  | [] => some verbose
  | 'v' :: rest => ofLetters? rest
  | 'h' :: _ => some (help true)
  | 'V' :: _ => some version
  | 'f' :: rest => some (set .facts (attached? rest))
  | 's' :: rest => some (set .start (attached? rest))
  | _ => none

def ofWord? (word : List Char) : Option Flag :=
  let value? := match word.dropWhile (· != '=') with
    | [] => none
    | _ :: value => some (String.ofList value)
  match String.ofList (word.takeWhile (· != '=')), value? with
  | "verbose", none => some verbose
  | "help", none => some (help false)
  | "version", none => some version
  | "facts", _ => some (set .facts value?)
  | "start", _ => some (set .start value?)
  | _, _ => none

end Flag

inductive Argument where
  | plain (text : String)
  | flag (flag : Flag)
  /-- Two dashes and nothing else. -/
  | endOfFlags
  | unknownFlag
  deriving DecidableEq, Repr

def Argument.ofText (text : String) : Argument :=
  match text.toList with
  | ['-', '-'] => endOfFlags
  | '-' :: '-' :: word => (Flag.ofWord? word).elim unknownFlag flag
  | '-' :: letter :: letters => (Flag.ofLetters? (letter :: letters)).elim unknownFlag flag
  | _ => plain text

/-- Places in a file are counted in words of 64 bits. -/
def index? (text : String) : Option Nat :=
  let digits := match text.toList with
    | '+' :: digits => digits
    | digits => digits
  if digits.isEmpty || !digits.all Char.isDigit then none
  else
    let index := digits.foldl (fun n c => 10 * n + (c.toNat - '0'.toNat)) 0
    if index < Nat.pow 2 64 then some index else none

structure Given where
  query? : Option String := none
  file? : Option String := none
  start? : Option Nat := none
  deriving DecidableEq, Repr

namespace Given

def query (text : String) (given : Given) : Option Given :=
  if given.query?.isSome then none else some { given with query? := some text }

def set (value : String) (given : Given) : Setting → Option Given
  | .facts =>
    if given.file?.isSome || value.isEmpty then none
    else some { given with file? := some value }
  | .start =>
    if given.start?.isSome then none
    else (index? value).map fun start => { given with start? := some start }

def command? (given : Given) : Verb → Option Command
  | .render => given.query?.map .render
  | .invert => given.query?.map .invert
  | .run => do return .run (← given.file?) (given.start?.getD 0) (← given.query?)

end Given

namespace Request

def readAfter (verb : Verb) (given : Given) : List String → Option Request
  | [] => (given.command? verb).map command
  | argument :: rest =>
    match Argument.ofText argument with
    | .plain text => (given.query text).bind fun given => readAfter verb given rest
    | .endOfFlags => do
      let given ← rest.foldlM (fun given text => given.query text) given
      return command (← given.command? verb)
    | .unknownFlag => none
    | .flag flag =>
      if flag.fits (some verb) then
        match flag with
        | .verbose => readAfter verb given rest
        | .help brief => some (help (.verb verb) brief)
        | .version => some version
        | .set setting (some value) =>
          (given.set value setting).bind fun given => readAfter verb given rest
        | .set setting none =>
          match rest with
          | [] => none
          | next :: rest =>
            match Argument.ofText next with
            | .plain value => (given.set value setting).bind fun given => readAfter verb given rest
            | _ => none
      else none

def readHelp : List String → Option Request
  | [] => some (help .program false)
  | ["help"] => some (help .help false)
  | [name] => (Verb.ofName? name).map fun verb => help (.verb verb) false
  | _ => none

def read : List String → Option Request
  | [] => none
  | argument :: rest =>
    match Argument.ofText argument with
    | .plain "help" => readHelp rest
    | .plain name => (Verb.ofName? name).bind fun verb => readAfter verb {} rest
    | .flag .verbose => read rest
    | .flag (.help brief) => some (help .program brief)
    | .flag .version => some version
    | _ => none

def file? : Request → Option String
  | command (.run file ..) => some file
  | _ => none

end Request

end LiveFacts
