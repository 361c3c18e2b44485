import LiveFacts.Fact.Document
import LiveFacts.Query.Reader
import LiveFacts.Source
import LiveFacts.Template.Compile

/-!
# Errors

Every way in which an operation can fail, and how it is told.
-/

namespace LiveFacts

inductive StorageCall where
  | lookup | opening | load | save
  deriving DecidableEq, Repr

def StorageCall.word : StorageCall → String
  | lookup => "lookup"
  | opening => "open"
  | load => "load"
  | save => "save"

inductive FactFault where
  | document (fault : DocumentFault)
  /-- A record that is not known by the hash of its content. -/
  | hashMismatch (fact : Reference) (source : Source)
  deriving DecidableEq, Repr

inductive StorageFault where
  | closedConnection
  | refused (call : StorageCall)
  deriving DecidableEq, Repr

inductive NetworkFault where
  /-- The node at the other end is gone. -/
  | dropped
  | peerNotAttached (peer : PeerId)
  | endNotAttached
  | unreachable
  deriving DecidableEq, Repr

inductive Error where
  | shape (fault : ShapeFault)
  | invalidFact (fault : FactFault)
  | querySyntax (error : Query.SyntaxError)
  | factNotFound (fact : Reference)
  | storage (fault : StorageFault)
  | network (fault : NetworkFault)
  deriving DecidableEq, Repr

def Source.textBy (peerText : PeerId → String) : Source → String
  | here => "local"
  | peer id => s!"peer {peerText id}"

def Source.text : Source → String :=
  Source.textBy PeerId.short

namespace Error

/-- The message, given how peers are told. -/
def messageBy (peerText : PeerId → String) : Error → String
  | shape fault => s!"Shape error: {fault.reason}"
  | invalidFact (.document fault) => s!"Invalid fact: {fault.reason}"
  | invalidFact (.hashMismatch fact source) =>
    s!"Invalid fact: hash mismatch for {fact.short} from {source.textBy peerText}"
  | querySyntax error => s!"Query syntax error at {error.position}: {error.fault.reason}"
  | factNotFound fact => s!"Fact {fact.text} not found"
  | storage .closedConnection => "Storage error: connection already closed"
  | storage (.refused call) => s!"Storage error: injected {call.word} failure"
  | network .dropped => "Network error: coordinator has been dropped"
  | network (.peerNotAttached peer) => s!"Network error: peer {peerText peer} not attached"
  | network .endNotAttached => "Network error: loopback endpoint not attached"
  | network .unreachable => "Network error: peer unreachable"

def message : Error → String :=
  messageBy PeerId.short

end Error

end LiveFacts
