import TokenEdit.Files.Path

/-!
# Files

The program reads whole files and writes whole files, and it knows files by their paths only.
`FileStore` is all that it asks of the place where the files are; the operations may fail, and
`FileFault` says why.
-/

namespace TokenEdit

/-- Why a file cannot be read or written. -/
inductive FileFault where
  /-- Nothing has this path, or the directory for it is missing. -/
  | missing
  /-- The path leads through a file. -/
  | throughFile
  /-- The path is that of a directory. -/
  | directory
  /-- The path has a zero byte. -/
  | zeroByte
  /-- What is there is no text. -/
  | notText
  /-- Another reason, in the words of the system. -/
  | system (reason : String)
  deriving DecidableEq

/-- The reason as it stands in messages. -/
def FileFault.reason : FileFault → String
  | missing => "No such file or directory (os error 2)"
  | throughFile => "Not a directory (os error 20)"
  | directory => "Is a directory (os error 21)"
  | zeroByte => "file name contained an unexpected NUL byte"
  | notText => "stream did not contain valid UTF-8"
  | system reason => reason

/-- A place where files are. -/
structure FileStore (m : Type → Type) where
  /-- The content of the file with the given path. -/
  read : Path → m (Except FileFault ByteArray)
  /-- Makes the given bytes the content of the file with the given path. -/
  write : Path → ByteArray → m (Except FileFault Unit)

/-- The text that bytes stand for. -/
def decodeText (bytes : ByteArray) : Except FileFault (List Char) :=
  match String.fromUTF8? bytes with
  | some s => .ok s.toList
  | none => .error .notText

/-- The bytes of a text. -/
def encodeText (cs : List Char) : ByteArray :=
  (String.ofList cs).toUTF8

/-- Reads a file as a text. -/
def FileStore.readText {m : Type → Type} [Monad m] (store : FileStore m) (path : Path) :
    m (Except FileFault (List Char)) := do
  return (← store.read path) >>= decodeText

end TokenEdit
