/-! The codes of `core/error_code.hpp` that the modelled functions return. -/

namespace Udaf

inductive ErrorCode where
  | protocolVersionMismatch
  | protocolInvalidMsgType
  | protocolPayloadTooLarge
  | protocolTruncatedBuffer
  | cryptoHmacMismatch
  | bizFileNotFound
  | bizNodeNotRegistered
  | bizServiceNotFound
  | bizAuthUntrusted
  | netSendFailed
  | netTimeout
  | netRateLimited
  | netSocketClosed
  | netNotConnected
  | resMemoryExhausted
  | resDiskFull
  | serializeEncodeFailed
  | serializeDecodeFailed
  | serializeTypeMismatch
  | serializeVersionMismatch
  | nodeNotFound
  | internal
  | invalidArg
  | notImplemented
  | resourceBusy
  deriving DecidableEq, Repr

end Udaf
