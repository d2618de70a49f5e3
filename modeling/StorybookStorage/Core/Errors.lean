import StorybookStorage.Posix.FileTree

/-!
# Service errors and exceptions

`core/errors.py` and `drivers/errors.py`: the domain error with its stable code
and HTTP status, one constructor helper for each code, and the exceptions a
request can end with.
-/

namespace StorybookStorage

open Python Posix

inductive ErrorCode where
  | VALIDATION_ERROR
  | UNAUTHORIZED
  | PREFIX_NOT_ALLOWED
  | FORBIDDEN
  | NOT_FOUND
  | ALREADY_EXISTS
  | PAYLOAD_TOO_LARGE
  | UNSUPPORTED_MEDIA_TYPE
  | INSUFFICIENT_STORAGE
  | STORAGE_IO_ERROR
  | INTERNAL_ERROR
deriving DecidableEq, Repr

structure ServiceError where
  code : ErrorCode
  httpStatus : Nat
  message : Text
deriving DecidableEq

def validationError (message : Text) : ServiceError where
  code := ErrorCode.VALIDATION_ERROR
  httpStatus := 400
  message := message

def unauthorized : ServiceError where
  code := ErrorCode.UNAUTHORIZED
  httpStatus := 401
  message := text "Unauthorized"

def prefixNotAllowed : ServiceError where
  code := ErrorCode.PREFIX_NOT_ALLOWED
  httpStatus := 403
  message := text "Key prefix not writable"

def forbidden : ServiceError where
  code := ErrorCode.FORBIDDEN
  httpStatus := 403
  message := text "Forbidden"

def notFound : ServiceError where
  code := ErrorCode.NOT_FOUND
  httpStatus := 404
  message := text "Not found"

def alreadyExists : ServiceError where
  code := ErrorCode.ALREADY_EXISTS
  httpStatus := 409
  message := text "Object already exists"

def payloadTooLarge : ServiceError where
  code := ErrorCode.PAYLOAD_TOO_LARGE
  httpStatus := 413
  message := text "Payload too large"

def unsupportedMediaType : ServiceError where
  code := ErrorCode.UNSUPPORTED_MEDIA_TYPE
  httpStatus := 415
  message := text "Unsupported media type"

def insufficientStorage : ServiceError where
  code := ErrorCode.INSUFFICIENT_STORAGE
  httpStatus := 507
  message := text "Insufficient storage"

def storageIoError : ServiceError where
  code := ErrorCode.STORAGE_IO_ERROR
  httpStatus := 500
  message := text "Storage IO error"

def internalError : ServiceError where
  code := ErrorCode.INTERNAL_ERROR
  httpStatus := 500
  message := text "Internal server error"

/-- The exceptions the code raises or lets through.  The two driver errors keep
the error they were raised from. -/
inductive Exn where
  | os (e : Errno)
  | service (e : ServiceError)
  | insufficientStorageError (cause : Errno)
  | storageIoError (cause : Errno)
  | valueError
  | typeError
  | attributeError
  | overflowError
  | unicodeDecodeError
  | jsonDecodeError
  | notImplementedError
  | cancelled
  | other (name : Text)
deriving DecidableEq

/-- The exception handlers of `register_exception_handlers`. -/
def errorResponse : Exn -> ServiceError
  | Exn.service e => e
  | Exn.insufficientStorageError _ => insufficientStorage
  | Exn.storageIoError _ => storageIoError
  | _ => internalError

end StorybookStorage
