import Smbfs.Wire.Types

/-!
Errors of the client: the sentinels of the package and of `io/fs`, network
errors, and the wrappers `fs.PathError` and `fmt.Errorf("%w")`.
-/

namespace Smbfs.Client

/-- The error values the client compares with. -/
inductive Sentinel where
  | notImplemented
  | invalidConfig
  | connectionClosed
  | poolExhausted
  | authenticationFailed
  | unsupportedDialect
  | invalidPath
  | notDirectory
  | isDirectory
  | fsNotExist
  | fsExist
  | fsPermission
  | fsInvalid
  | fsClosed
  | eof
  | unexpectedEOF
  | canceled
  deriving DecidableEq

/-- The operations named in a `fs.PathError`. -/
inductive Op where
  | open'
  | stat
  | readdir
  | mkdir
  | remove
  | rename
  | chmod
  | chtimes
  | truncate
  | read
  | write
  | seek
  | close
  | readat
  | writeat
  | readfile
  | chdir
  deriving DecidableEq

/-- An `error` that is not nil. -/
inductive Err where
  | sentinel (s : Sentinel)
  /-- A value with the methods `Timeout` and `Temporary`. -/
  | net (timeout temporary : Bool)
  /-- `errors.New`, compared with nothing. -/
  | other (text : Str)
  | pathError (op : Op) (path : Str) (err : Err)
  | wrapped (err : Err)
  deriving DecidableEq

namespace Err

/-- `errors.Is` for a sentinel. -/
def is (target : Sentinel) : Err → Bool
  | sentinel s => s = target
  | net .. | other _ => false
  | pathError _ _ err | wrapped err => err.is target

/-- `errors.As` for `netError`: `Timeout` and `Temporary` of the first one in the chain. -/
def asNet : Err → Option (Bool × Bool)
  | sentinel _ | other _ => none
  | net timeout temporary => some (timeout, temporary)
  | pathError _ _ err | wrapped err => err.asNet

/-- `errors.As` for `*fs.PathError`: the path of the first one in the chain. -/
def asPathError : Err → Option Str
  | sentinel _ | other _ | net .. => none
  | pathError _ path _ => some path
  | wrapped err => err.asPathError

end Err

/-- `os.IsNotExist`: it looks through one `fs.PathError` and through no other wrapper. -/
def osIsNotExist : Err → Bool
  | .pathError _ _ err => err = .sentinel .fsNotExist
  | err => err = .sentinel .fsNotExist

/-- `wrapPathError`, for an error that is not nil. -/
def wrapPathError (op : Op) (path : Str) (err : Err) : Err :=
  if err.asPathError = some path then err else .pathError op path err

/-- `convertError`, for an error that is not nil. -/
def convertError (err : Err) : Err :=
  if err.is .fsNotExist || err.is .fsExist || err.is .fsPermission || err.is .fsInvalid ||
      err.is .fsClosed then err
  else if err.is .connectionClosed then .sentinel .fsClosed
  else if err.is .invalidPath then .sentinel .fsInvalid
  else if err.is .authenticationFailed then .sentinel .fsPermission
  else err

/-- The part of `isRetryable` before it looks at the wrapped error. -/
def retryableHere (err : Err) : Bool :=
  (match err.asNet with
    | some (timeout, temporary) => temporary || timeout
    | none => false) ||
  err.is .connectionClosed || err.is .poolExhausted

def isRetryable : Err → Bool
  | .pathError op path err => retryableHere (.pathError op path err) || isRetryable err
  | .wrapped err => retryableHere (.wrapped err) || isRetryable err
  | err => retryableHere err

end Smbfs.Client
