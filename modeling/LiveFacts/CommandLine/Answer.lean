import LiveFacts.CommandLine.Help
import LiveFacts.Json.Reader
import LiveFacts.Network

/-!
# Answers on the command line

A request is answered by a text, and a query over facts also by a line that sums up what was found,
or by a report of what went wrong.
-/

namespace LiveFacts

namespace Command

inductive Failure where
  | invalidQuery (text : String) (error : Query.SyntaxError)
  | unreadable (file : String)
  | notAnArray (file : String)
  | invalidFact (index : Nat) (error : Error)
  | startOutOfRange (start count : Nat)
  | queryFailed (error : Error)
  | unwritable (fact : Reference) (error : Error)
  deriving DecidableEq, Repr

namespace Failure

def context : Failure → String
  | invalidQuery text _ => s!"Invalid query: {text}"
  | unreadable file => s!"Failed to read {file}"
  | notAnArray file => s!"{file} must contain a JSON array of facts"
  | invalidFact index _ => s!"Fact #{index} is invalid"
  | startOutOfRange start count => s!"Start index {start} is out of range ({count} facts loaded)"
  | queryFailed _ => "Query failed"
  | unwritable fact _ => s!"Failed to hydrate {fact.short}"

def cause? : Failure → Option Error
  | invalidQuery _ error => some (.querySyntax error)
  | invalidFact _ error | queryFailed error | unwritable _ error => some error
  | unreadable _ | notAnArray _ | startOutOfRange .. => none

def indent (text : String) : String :=
  String.ofList ("    ".toList ++ text.toList.flatMap fun c =>
    if c = '\n' then "\n    ".toList else [c])

def report (failure : Failure) : String :=
  let cause := failure.cause?.elim "" fun error => s!"\n\nCaused by:\n{indent error.message}"
  s!"Error: {failure.context}{cause}"

end Failure

end Command

structure Output where
  text : String
  summary? : Option String := none
  deriving DecidableEq, Repr

namespace Inverse

def entry (number : Nat) (inverse : Inverse) : String :=
  let trigger := inverse.type?.getD "*"
  let added := inverse.added.elim "" fun query => s!"  added: {query.text}\n"
  let removed := inverse.removed.elim "" fun query => s!"  removed: {query.text}\n"
  s!"#{number} {trigger}\n  affected: {inverse.affected.text}\n{added}{removed}"

def list (inverses : List Inverse) : String :=
  if inverses.isEmpty then "No inverses: results never change once seeded.\n"
  else String.join (inverses.mapIdx fun index inverse => inverse.entry (index + 1))

end Inverse

namespace Command

def readQuery (text : String) : Except Failure Query :=
  (Query.read text).mapError (.invalidQuery text)

def node : String := "node"

/-- Makes facts of documents, which are counted on from `index`. -/
def makeFacts (index : Nat) : List Json → World → Except Failure (World × List Reference)
  | [], world => .ok (world, [])
  | document :: rest, world =>
    match world.fact node document with
    | (_, .error error) => .error (.invalidFact index error)
    | (world, .ok fact) => do
      let (world, facts) ← makeFacts (index + 1) rest world
      return (world, fact :: facts)

def documents (file : String) (content? : Option String) : Except Failure (List Json) :=
  match content? with
  | none => .error (.unreadable file)
  | some content =>
    match Json.read? content with
    | some (.array documents) => .ok documents
    | _ => .error (.notAnArray file)

def runQuery (file : String) (start : Nat) (query : Query) (content? : Option String) :
    Except Failure Output := do
  let (world, facts) ← makeFacts 0 (← documents file content?) {}
  match facts[start]? with
  | none => .error (.startOutOfRange start facts.length)
  | some fact =>
    let (node, found) := (world.node node).query fact query
    let found ← found.mapError .queryFailed
    let results ← found.mapM fun fact => (node.hydrate fact).mapError (.unwritable fact)
    return {
      text := (Json.array results).layout ++ "\n"
      summary? := some s!"Results: {found.length} from {fact.short}" }

def perform (content? : Option String) : Command → Except Failure Output
  | render query => do return { text := (← readQuery query).text ++ "\n" }
  | invert query => do return { text := Inverse.list (← readQuery query).inverses }
  | run file start query => do runQuery file start (← readQuery query) content?

end Command

def Request.answer (content? : Option String) : Request → Except Command.Failure Output
  | .command asked => asked.perform content?
  | .help topic brief => .ok { text := topic.text brief }
  | .version => .ok { text := versionText }

end LiveFacts
