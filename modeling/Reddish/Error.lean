import Reddish.Library.Numeral
import Reddish.Library.Cmd

namespace Reddish

open Library

/-!
Error codes and their texts.

Every failure the server reports names one of these codes.  The texts matter
because they are sent to clients as one line of a reply, so that a line break
inside one of them would end the reply early.
-/

/-- The `ErrorCode` enumeration of `error.hpp`. -/
inductive ErrorCode where
  | emptyRespInput
  | expectedRespArrayPrefix
  | missingCrlf
  | invalidRespArrayLength
  | emptyRespArray
  | missingBulkStringPrefix
  | expectedBulkStringPrefix
  | invalidBulkStringLength
  | incompleteBulkStringData
  | missingBulkStringTerminator
  | wrongArgumentCount
  | unknownCommand
  | protocolErrorPrefix
  | valueNotInteger
  | wrongType
  | unsupportedInfoSection
  | requestTooLarge
  | diskWriteFailed
  | diskReadFailed
  | socketStartupFailed
  | socketPollFailed
  | socketCreationFailed
  | socketBindFailed
  | socketListenFailed
  | socketAcceptFailed
  | socketNonblockingFailed
  | listeningSocketFailed
  deriving DecidableEq, Repr

/-- The text of a code, as `error_message` returns it. -/
def ErrorCode.message : ErrorCode -> String
  | .emptyRespInput => "Empty RESP input"
  | .expectedRespArrayPrefix => "Expected RESP array prefix '*'"
  | .missingCrlf => "Missing CRLF"
  | .invalidRespArrayLength => "Invalid RESP array length"
  | .emptyRespArray => "RESP array contains no command"
  | .missingBulkStringPrefix => "Missing bulk string prefix"
  | .expectedBulkStringPrefix => "Expected bulk string prefix '$'"
  | .invalidBulkStringLength => "Invalid RESP bulk string length"
  | .incompleteBulkStringData => "RESP bulk string data is incomplete"
  | .missingBulkStringTerminator => "RESP bulk string is missing trailing CRLF"
  | .wrongArgumentCount => "ERR wrong number of arguments for"
  | .unknownCommand => "ERR unknown command"
  | .protocolErrorPrefix => "ERR Protocol error: "
  | .valueNotInteger => "ERR value is not an integer or out of range"
  | .wrongType => "WRONGTYPE Operation against a key holding the wrong kind of value"
  | .unsupportedInfoSection => "ERR unsupported INFO section"
  | .requestTooLarge => "ERR request exceeds maximum buffer size"
  | .diskWriteFailed => "Failed to write WAL"
  | .diskReadFailed => "Failed to read WAL"
  | .socketStartupFailed => "Failed to initialize socket system"
  | .socketPollFailed => "Socket event polling failed"
  | .socketCreationFailed => "Failed to create TCP socket"
  | .socketBindFailed => "Failed to bind TCP socket"
  | .socketListenFailed => "Failed to listen on TCP socket"
  | .socketAcceptFailed => "Failed to accept TCP client"
  | .socketNonblockingFailed => "Failed to set socket as nonblocking"
  | .listeningSocketFailed => "Listening socket failed"

def ascii (text : String) : Bytes :=
  text.toList.map (fun character => UInt8.ofNat character.toNat)

/-- What a function of the program can throw: an `Error` with its code, or
`std::bad_alloc` (of which the memory limit is a subclass). -/
inductive Exn where
  | error (code : ErrorCode)
  | badAlloc
  deriving DecidableEq, Repr

end Reddish
