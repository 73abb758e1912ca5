/-
  Spectty.Adapters.Engram

  The two clients of the observation store: the application's persistence
  port (`EngramAdapter`) and the sidecar's (`ReqwestEngramClient`).  Both pass
  the topic key and the payload through and wrap the transport's message.
-/

import Spectty.Effects

namespace Spectty.Adapters

open Spectty.Lib

/-- Errors of the persistence port. -/
inductive PersistenceError where
  | backend (msg : String)
deriving DecidableEq, Repr

/-- The text of an error. -/
def PersistenceError.message : PersistenceError → String
  | .backend msg => "persistence backend error: " ++ msg

/-- A transport error becomes a backend error. -/
def mapHttpErr (msg : String) : PersistenceError :=
  .backend ("engram http transport error: " ++ msg)

namespace EngramAdapter

/-- Insert or replace the payload under `topicKey`. -/
def upsert (topicKey payload : String) : Prog Sys (Except PersistenceError Unit) := do
  let r ← Sys.storeUpsert topicKey payload
  return Except.mapError mapHttpErr r

/-- Retrieve the payload under `topicKey`. -/
def get (topicKey : String) : Prog Sys (Except PersistenceError (Option String)) := do
  let r ← Sys.storeGet topicKey
  return Except.mapError mapHttpErr r

end EngramAdapter

/-- Failure modes of the sidecar's client. -/
inductive EngramClientError where
  | transport (msg : String)
deriving DecidableEq, Repr

namespace ReqwestEngramClient

/-- Create or update the observation under `topicKey`. -/
def upsert (topicKey content : String) : Prog Sys (Except EngramClientError Unit) := do
  let r ← Sys.storeUpsert topicKey content
  return Except.mapError EngramClientError.transport r

/-- Read the latest observation under `topicKey`. -/
def get (topicKey : String) : Prog Sys (Except EngramClientError (Option String)) := do
  let r ← Sys.storeGet topicKey
  return Except.mapError EngramClientError.transport r

end ReqwestEngramClient

end Spectty.Adapters
