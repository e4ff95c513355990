import MessageBroker.Validation

/-! # Errors

The errors that operations of the broker answer, with their wording, their numeric code and their
status, and the failures of the storage below them. A storage failure on a single record becomes an
error by `ofRecordFailure`, any other by `ofFailure`. -/

namespace MessageBroker

/-- The kinds of stored records. -/
inductive Entity
  | queue
  | message
  | topic
  | subscription
  deriving DecidableEq

/-- The name of a kind of records. -/
def Entity.name : Entity → String
  | .queue => "queue"
  | .message => "message"
  | .topic => "topic"
  | .subscription => "subscription"

/-- Why access to the storage failed. -/
inductive StorageFailure
  | io
  | tls
  | poolTimedOut
  | poolClosed
  | workerCrashed
  | rowNotFound
  /-- The database rejected a statement, because of a repeated key or for another reason. -/
  | database (repeatedKey : Bool) (text : String)
  | configuration
  | invalidArgument
  | protocol
  | typeNotFound
  | columnIndexOutOfBounds
  | columnNotFound
  | columnDecode
  | encode
  | decode
  | driver
  | migrate
  | invalidSavepoint
  | beginFailed
  deriving DecidableEq

/-- Whether the storage cannot be reached at all. -/
def StorageFailure.isUnavailable : StorageFailure → Bool
  | .io | .tls | .poolTimedOut | .poolClosed | .workerCrashed => true
  | _ => false

/-- An error of the broker. -/
inductive Error
  | validationFailed (errors : ValidationErrors)
  | notFound (entity : Entity) (id : String)
  | alreadyExists (entity : Entity) (id : String)
  | storageUnavailable
  | unknown
  | migration
  | malformedRequest (message : String)
  deriving DecidableEq

namespace Error

/-- The error of a storage failure. -/
def ofFailure (f : StorageFailure) : Error :=
  if f.isUnavailable then storageUnavailable else unknown

/-- The error of a storage failure on one record. -/
def ofRecordFailure (entity : Entity) (id : String) : StorageFailure → Error
  | .rowNotFound => notFound entity id
  | .database repeatedKey text =>
    if repeatedKey || "UNIQUE constraint".toList.isPrefixOf text.toList then alreadyExists entity id
    else unknown
  | f => ofFailure f

/-- The wording of an error, for operators. -/
def message : Error → String
  | validationFailed errors => "request validation failed: " ++ errors.message
  | notFound entity id => entity.name ++ " not found: " ++ id
  | alreadyExists entity id => entity.name ++ " already exists: " ++ id
  | storageUnavailable => "Storage unavailable"
  | unknown => "Error returned from database"
  | migration => "Error running migrations"
  | malformedRequest message => "Malformed request: " ++ message

/-- The wording of an error, for clients. -/
def publicMessage : Error → String
  | validationFailed _ => "request validation failed"
  | notFound entity _ => entity.name ++ " not found"
  | alreadyExists entity _ => entity.name ++ " already exists"
  | storageUnavailable => "storage unavailable"
  | unknown | migration => "internal server error"
  | malformedRequest _ => "malformed request body"

/-- The numeric code of an error. -/
def code : Error → Nat
  | unknown | migration => 1
  | malformedRequest _ => 2
  | validationFailed _ => 3
  | alreadyExists .queue _ => 4
  | notFound .queue _ => 5
  | notFound .message _ => 6
  | alreadyExists .topic _ => 7
  | notFound .topic _ => 8
  | alreadyExists .subscription _ => 9
  | notFound .subscription _ => 10
  | alreadyExists .message _ => 11
  | storageUnavailable => 12

/-- The status of the response to a request that fails with an error. -/
def status : Error → Nat
  | notFound .. => 404
  | validationFailed _ | alreadyExists .. | malformedRequest _ => 400
  | storageUnavailable => 503
  | unknown | migration => 500

def isNotFound : Error → Bool
  | notFound .. => true
  | _ => false

end Error

/-- Success if no violation was found. -/
def ValidationErrors.toResult (e : ValidationErrors) : Except Error Unit :=
  if e.isEmpty then .ok () else .error (.validationFailed e)

end MessageBroker
