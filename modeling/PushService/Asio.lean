import Mathlib.Data.List.Basic

/-!
# Boost.Asio

What both ends of the connection use of it, besides asynchronous operations.
-/

namespace PushService

/-- `boost::system::error_code`, when it is an error. -/
inductive ErrorCode
  | operationAborted
  | other (message : String)
  deriving DecidableEq, Repr

def ErrorCode.message : ErrorCode → String
  | operationAborted => "Operation canceled"
  | other message => message

def ErrorCode.badDescriptor : ErrorCode := other "Bad file descriptor"

def ErrorCode.notFound : ErrorCode := other "Element not found"

end PushService
