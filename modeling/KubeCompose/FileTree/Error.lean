/-!
# Why a file operation fails
-/

namespace KubeCompose

/-- The causes for which a file operation fails. -/
inductive FileError where
  | notFound
  | permissionDenied
  | alreadyExists
  | notDirectory
  | isDirectory
  | directoryNotEmpty
  | tooManyLinks
  | nameTooLong
  | nulInPath
  | nulInCall
  | notProgram
  | notRegular
  | notText
  | emptyPath
  | brokenPipe
  deriving DecidableEq, Repr

/-- The wording of a cause, with the number that the system gives it. -/
def FileError.message : FileError → String
  | .notFound => "No such file or directory (os error 2)"
  | .permissionDenied => "Permission denied (os error 13)"
  | .alreadyExists => "File exists (os error 17)"
  | .notDirectory => "Not a directory (os error 20)"
  | .isDirectory => "Is a directory (os error 21)"
  | .directoryNotEmpty => "Directory not empty (os error 39)"
  | .tooManyLinks => "Too many levels of symbolic links (os error 40)"
  | .nameTooLong => "File name too long (os error 36)"
  | .nulInPath => "file name contained an unexpected NUL byte"
  | .nulInCall => "nul byte found in provided data"
  | .notProgram => "Exec format error (os error 8)"
  | .notRegular => "the source path is neither a regular file nor a symlink to a regular file"
  | .notText => "stream did not contain valid UTF-8"
  | .emptyPath => "cannot make an empty path absolute"
  | .brokenPipe => "Broken pipe (os error 32)"

end KubeCompose
