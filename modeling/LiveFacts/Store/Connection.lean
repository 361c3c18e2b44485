import LiveFacts.Error
import LiveFacts.Store.Evaluate

/-!
# Connections to a store

Queries run on a connection, which is opened, used and closed. Connections are numbered in the
order in which they are opened.
-/

namespace LiveFacts

structure Storage where
  facts : Store := {}
  /-- For each connection ever opened, whether it is still open. -/
  connections : List Bool := []

namespace Storage

def openConnection (storage : Storage) : Storage × Nat :=
  ({ storage with connections := storage.connections ++ [true] }, storage.connections.length)

def isOpen (storage : Storage) (connection : Nat) : Bool :=
  storage.connections.getD connection false

/-- Closes a connection; it may be closed already. -/
def closeConnection (connection : Nat) (storage : Storage) : Storage :=
  { storage with connections := storage.connections.set connection false }

def openCount (storage : Storage) : Nat :=
  storage.connections.count true

def openedCount (storage : Storage) : Nat :=
  storage.connections.length

def evaluate (storage : Storage) (start : Reference) (query : Query) :
    Except Error (List Path) :=
  (storage.facts.evaluate start query).mapError .factNotFound

def execute (storage : Storage) (connection : Nat) (start : Reference) (query : Query) :
    Except Error (List Path) :=
  if storage.isOpen connection then storage.evaluate start query
  else .error (.storage .closedConnection)

def save (record : Record) (storage : Storage) : Storage :=
  { storage with facts := storage.facts.save record }

end Storage

end LiveFacts
