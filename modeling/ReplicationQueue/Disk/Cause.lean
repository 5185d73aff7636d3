/-! Why the system refuses a call. -/

namespace ReplicationQueue

inductive Cause where
  | notFound
  | notDirectory
  | isDirectory
  | alreadyExists
  | notEmpty
  | nameTooLong
  | tooManyLinks
  /-- A directory cannot be moved below itself. -/
  | intoItself
  | acrossVolumes
  | busy
  /-- Nothing can be opened there. -/
  | noDevice
  /-- A path holds a null character. -/
  | nullInPath
  /-- The contents are no text. -/
  | notText
  | permissionDenied
  | staleHandle
  | other
  deriving DecidableEq, Repr

def Cause.message : Cause → String
  | .notFound => "No such file or directory (os error 2)"
  | .notDirectory => "Not a directory (os error 20)"
  | .isDirectory => "Is a directory (os error 21)"
  | .alreadyExists => "File exists (os error 17)"
  | .notEmpty => "Directory not empty (os error 39)"
  | .nameTooLong => "File name too long (os error 36)"
  | .tooManyLinks => "Too many levels of symbolic links (os error 40)"
  | .intoItself => "Invalid argument (os error 22)"
  | .acrossVolumes => "Invalid cross-device link (os error 18)"
  | .busy => "Device or resource busy (os error 16)"
  | .noDevice => "No such device or address (os error 6)"
  | .nullInPath => "file name contained an unexpected NUL byte"
  | .notText => "stream did not contain valid UTF-8"
  | .permissionDenied => "Permission denied (os error 13)"
  | .staleHandle => "Stale file handle (os error 116)"
  | .other => "other error"

end ReplicationQueue
