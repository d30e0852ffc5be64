-- SUMMARY: Why the file system refuses an operation.

/-!
# Refusals

The reasons for which an operation on files fails, with the words the operating system uses for them.
-/

namespace Rill.Files

inductive Refusal
  | notFound | alreadyExists | notDirectory | isDirectory | notEmpty | invalidArgument | emptyPath
  deriving Repr, DecidableEq

def Refusal.text : Refusal → String
  | .notFound => "No such file or directory (os error 2)"
  | .alreadyExists => "File exists (os error 17)"
  | .notDirectory => "Not a directory (os error 20)"
  | .isDirectory => "Is a directory (os error 21)"
  | .notEmpty => "Directory not empty (os error 39)"
  | .invalidArgument => "Invalid argument (os error 22)"
  | .emptyPath => "cannot make an empty path absolute"

end Rill.Files
