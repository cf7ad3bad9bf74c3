/-!
Why a file operation is refused.
-/
namespace ComponentBundle.Files

inductive Fault where
  | notFound
  | busy
  | alreadyExists
  | notADirectory
  | isADirectory
  /-- The content is not UTF-8. -/
  | notText
  deriving Repr, DecidableEq

def Fault.message : Fault → String
  | .notFound => "No such file or directory (os error 2)"
  | .busy => "Device or resource busy (os error 16)"
  | .alreadyExists => "File exists (os error 17)"
  | .notADirectory => "Not a directory (os error 20)"
  | .isADirectory => "Is a directory (os error 21)"
  | .notText => "stream did not contain valid UTF-8"

end ComponentBundle.Files
