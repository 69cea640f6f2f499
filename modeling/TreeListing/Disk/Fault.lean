/-!
# Why a file operation fails
-/

namespace TreeListing

/-- The causes of a failed file operation. -/
inductive IoFault where
  /-- No entry of that name, or an empty path. -/
  | notFound
  | alreadyExists
  /-- A part that has to be a directory is not one. -/
  | notDirectory
  /-- A file was wanted where a directory is. -/
  | isDirectory
  | nameTooLong
  | tooManyLinks
  /-- The path holds the byte that ends a name. -/
  | nulByte
  /-- The content read is no text. -/
  | notText
  /-- Any other cause, in words. -/
  | other (words : String)
deriving DecidableEq, Repr

/-- The written form of a cause; those that the system reports carry its number. -/
def IoFault.message : IoFault → String
  | notFound => "No such file or directory (os error 2)"
  | alreadyExists => "File exists (os error 17)"
  | notDirectory => "Not a directory (os error 20)"
  | isDirectory => "Is a directory (os error 21)"
  | nameTooLong => "File name too long (os error 36)"
  | tooManyLinks => "Too many levels of symbolic links (os error 40)"
  | nulByte => "file name contained an unexpected NUL byte"
  | notText => "stream did not contain valid UTF-8"
  | other words => words

end TreeListing
