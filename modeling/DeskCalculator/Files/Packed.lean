import DeskCalculator.Text.Quoted

/-!
# Packed files

The ending of a path, in any case, says whether the file is packed, and how, in reading and in writing. A
text is never the content of a packed file, so all there is to say of reading is how it fails. The one
exception is an empty file, which unpacks to an empty text in one of the formats.
-/

namespace DeskCalculator

/-- The formats of packed files. -/
inductive Packing where
  | gzip
  | bzip2
  | zip
  | xz
  | zstandard
  | tar
  deriving DecidableEq, Repr

namespace Packing

/-- The endings of packed files; the first one that fits counts. -/
def endings : List (String × Packing) :=
  [(".tar", tar), (".tar.gz", tar), (".tar.bz2", tar), (".tar.xz", tar), (".gz", gzip),
    (".bz2", bzip2), (".zip", zip), (".xz", xz), (".zst", zstandard)]

/-- The format that a path promises. -/
def ofPath? (path : String) : Option Packing :=
  let name := String.ofList (path.toList.map Char.toLower)
  (endings.find? fun ending => name.endsWith ending.1).map Prod.snd

/-- Why a packed file cannot be read. -/
inductive Failure where
  /-- The file begins with the wrong bytes. -/
  | notGzip (start : List UInt8)
  | notBzip2
  | notZip
  | notXz
  /-- The file ends too early. -/
  | truncated
  /-- No reading of the archive fits; its size decides what is missing. -/
  | notTar (size : Nat)
  /-- The format cannot be read at all. -/
  | unsupported
  deriving DecidableEq, Repr

/-- The size of the header of an archive. -/
def tarHeader : Nat := 512

/-- The wording of a failed attempt to read an archive. -/
def tarMessage (size : Nat) : String :=
  let gzipped := if size = 0 then "empty file" else "not a gzip file"
  let plain :=
    if size = 0 then "empty file"
    else if size < tarHeader then "truncated header"
    else "invalid header"
  "\n".intercalate
    ["file could not be opened successfully:",
      s!"- method gz: ReadError({Text.quoted gzipped})",
      "- method bz2: ReadError('not a bzip2 file')",
      "- method xz: ReadError('not an lzma file')",
      s!"- method tar: ReadError({Text.quoted plain})"]

/-- The wording of a failure. -/
def Failure.message : Failure → String
  | notGzip start => s!"Not a gzipped file ({Text.quotedBytes start})"
  | notBzip2 => "Invalid data stream"
  | notZip => "File is not a zip file"
  | notXz => "Input format not supported by decoder"
  | truncated => "Compressed file ended before the end-of-stream marker was reached"
  | notTar size => tarMessage size
  | unsupported => "`Import zstandard` failed.  Use pip or conda to install the zstandard package."

/-- The text that a file with the given bytes unpacks to. -/
def unpack (bytes : List UInt8) : Packing → Except Failure String
  | gzip => if bytes.isEmpty then .ok "" else .error (.notGzip (bytes.take 2))
  | bzip2 => if bytes.isEmpty then .error .truncated else .error .notBzip2
  | zip => .error .notZip
  | xz => if bytes.isEmpty then .error .truncated else .error .notXz
  | zstandard => .error .unsupported
  | tar => .error (.notTar bytes.length)

end Packing

end DeskCalculator
