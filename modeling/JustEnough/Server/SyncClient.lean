/-
`sync_client.cc`: how a reply is read from another server.

`boost::asio::read` is asked for at least one byte at a time.  What it gives, a number of
bytes and an error code, is up to the environment: every sequence of results is a run.
The loop goes on while there are bytes, and looks at the error in its body only.
-/
import JustEnough.Lib.Strings

namespace JustEnough

/-- `boost::system::error_code`, as far as it is told apart. -/
inductive ReadError
  | none
  | eof
  | other
  deriving DecidableEq, Repr

/-- One result of `boost::asio::read`: what is in the buffer, and the error. -/
structure ReadResult where
  bytes : Str
  error : ReadError
  deriving DecidableEq, Repr

namespace SyncClient

/--
The `while` loop of `Read`, with what is in `response_stream`.  It leaves the reply, or
none where it returns false, and the results that were not asked for.  A run with too
few results has not come to its end.
-/
def readFrom (responseStream : Str) : List ReadResult → Option (Option Str × List ReadResult)
  | [] => none
  | result :: rest =>
    if result.bytes.length = 0 then some (some responseStream, rest)
    else
      let responseStream := responseStream ++ result.bytes
      if result.error = .eof then some (some responseStream, rest)
      else if result.error ≠ .none then some (none, rest)
      else readFrom responseStream rest

def read (results : List ReadResult) : Option (Option Str × List ReadResult) := readFrom [] results

end SyncClient

end JustEnough
