import Zooffice.Archive.Model.Disk
/-!
# Downloading a file

`NetworkUtil.downloadFile` and what may happen on the way: each step that
can fail has its outcome in the call.
-/


namespace Zooffice

/-- What a step that fails throws: an exception, and not an error of the
virtual machine. -/
structure Failure where
  throwable : Throwable
  isException : throwable.isException = true

/-- A `URLConnection`: whether it is an `HttpURLConnection`. -/
structure URLConnection where
  isHttp : Bool
  deriving DecidableEq, Repr

/-- What one call of `read` puts into the buffer. -/
structure Chunk where
  bytes : Content
  ne_nil : bytes ≠ []
  length_le : bytes.length ≤ 4 * 1024

/-- What the input stream delivers, chunk by chunk, and whether another
`read` fails instead of finding the end. -/
structure Response where
  chunks : List Chunk
  failure : Option Failure

/-- The bytes of a response. -/
def Response.bytes (r : Response) : Content := r.chunks.flatMap Chunk.bytes

/-- A call of `downloadFile`, and the outcome of each of its steps. A write
that fails may have written some of its bytes. -/
structure DownloadCall where
  urlString : String
  url : Except Failure PUnit
  openConnection : Except Failure URLConnection
  connect : Except Failure PUnit
  createFile : Except Failure PUnit
  inputStream : Except Failure Response
  write : ℕ → Option (Failure × ℕ)

/-- A stream that has been opened. -/
inductive StreamState where
  | opened
  | closed
  deriving DecidableEq, Repr

/-- The variables of the method, which may be null, and the file. -/
structure Download where
  os : Option StreamState
  input : Option StreamState
  connection : Option URLConnection
  disconnected : Bool
  file : Option Content
  deriving DecidableEq, Repr

/-- The method begins, with what is in the file. -/
def Download.start (file : Option Content) : Download := ⟨none, none, none, false, file⟩

/-- What runs in the method. -/
abbrev DownloadEff (α : Type) : Type := Eff Download Throwable α

namespace NetworkUtil

/-- A step that may fail. -/
def attempt {α : Type} (outcome : Except Failure α) : DownloadEff α :=
  Eff.ofExcept (outcome.mapError Failure.throwable)

/-- What stands before the loop. -/
def openStreams (call : DownloadCall) : DownloadEff Response := do
  attempt call.url
  let connection ← attempt call.openConnection
  Eff.modify fun s => { s with connection := some connection }
  attempt call.connect
  attempt call.createFile
  Eff.modify fun s => { s with os := some .opened, file := some [] }
  let input ← attempt call.inputStream
  Eff.modify fun s => { s with input := some .opened }
  return input

/-- The file has more bytes at its end. -/
def append (bytes : Content) : DownloadEff PUnit :=
  Eff.modify fun s => { s with file := s.file.map fun content => content ++ bytes }

/-- `os.write(buffer, 0, read)`. -/
def writeChunk (call : DownloadCall) (k : ℕ) (chunk : Chunk) : DownloadEff PUnit :=
  match call.write k with
  | none => append chunk.bytes
  | some (failure, written) => do
      append (chunk.bytes.take written)
      Eff.throw failure.throwable

/-- The loop, from the write with the number `k` on. -/
def copyLoop (call : DownloadCall) (failure : Option Failure) :
    ℕ → List Chunk → DownloadEff PUnit
  | _, [] =>
      match failure with
      | none => pure ⟨⟩
      | some failure => Eff.throw failure.throwable
  | k, chunk :: rest => do
      writeChunk call k chunk
      copyLoop call failure (k + 1) rest

/-- The body of the `try`. -/
def transfer (call : DownloadCall) : DownloadEff PUnit := do
  let input ← openStreams call
  copyLoop call input.failure 0 input.chunks

/-- `IOUtils.closeQuietly`. -/
def closeQuietly (stream : Option StreamState) : Option StreamState :=
  stream.map fun _ => .closed

/-- The `finally` block. -/
def cleanUp : DownloadEff PUnit := do
  let s ← Eff.get
  match s.connection with
  | none => Eff.throw ⟨.nullPointer, none⟩
  | some connection =>
      if connection.isHttp = false then Eff.throw ⟨.other "ClassCastException", none⟩
      Eff.modify fun s => { s with disconnected := true }
      Eff.modify fun s => { s with os := closeQuietly s.os }
      Eff.modify fun s => { s with input := closeQuietly s.input }

/-- The `try` with its handler. -/
def handled (call : DownloadCall) : DownloadEff PUnit :=
  Eff.tryCatch (transfer call) fun e =>
    Eff.throw (if e.isException then
      ⟨.zoofficeRuntime, some ("Error while download " ++ call.urlString)⟩ else e)

/-- `downloadFile`. -/
def downloadFile (call : DownloadCall) : DownloadEff PUnit :=
  Eff.finallyRun (handled call) cleanUp

end NetworkUtil

end Zooffice
