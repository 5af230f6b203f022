import Tuxbox.Lib.Logged
import Tuxbox.Lib.OrdMap
import Tuxbox.Nhttpd.Helper
import Mathlib.Data.List.Infix

/-!
# POST requests

The header of a POST request is read line by line, then the body as its content
type says: the parts of a multipart body one after the other, or a form in
blocks until enough has arrived.

The log has an entry for each call of `ReceiveLine` and for each subtraction from
the unsigned `content_len`.
-/

namespace Tuxbox.Nhttpd

def receiveBlockLen : Nat := 1024

def maxLineBuffer : Nat := 1024 * 2

def nonBlockingMaxRetries : Nat := 10

def searchBoundaryLen : Nat := 2 * receiveBlockLen

/-- What a request finds: the name the hooks give an upload, whether its file can be
opened, the room the disk has for it, and what stands in the buffer of a line
behind the bytes that were read. -/
structure Server where
  uploadFilename : Str
  opens : Bool
  room : Nat
  stale : Str → Byte

/-- A connection. `rest` is what the client still sends, `arrived` how much of it is
there each time the socket is asked; after these times everything is. -/
structure Conn where
  rest : Str
  arrived : List Nat
  isValid : Bool
  parameterList : OrdMap Str Str
  file : Str
  uploads : List Str
  errors : List Nat

inductive Event where
  | line (received result : Str) (written : List Nat)
  | subtract (contentLen n : Nat)

abbrev Post := Prog Event Conn

open Prog

def crlf : Str := [13, 10]

/-! ## The socket -/

/-- The bytes `ReceiveLine` reads into its buffer, what is left of the stream, and
whether every `Read` gave a byte. -/
def lineLoop : (buffer s : Str) → Str × Str × Bool
  | buffer, [] => (buffer, [], false)
  | buffer, c :: s =>
    if c = newline ∨ ¬ buffer.length < maxLineBuffer - 1 then (buffer ++ [c], s, true)
    else lineLoop (buffer ++ [c]) s

/-- The length is one more than the last index, also when nothing was read there;
the end of the string is written behind it. -/
def receiveLine (v : Server) : Post Str := fun c =>
  let (buffer, rest, more) := lineLoop [] c.rest
  let result := if more then buffer else buffer ++ [v.stale buffer]
  (some (result, { c with rest := rest, isValid := c.isValid && more }),
    [.line buffer result (List.range buffer.length ++ [result.length])])

/-- The bytes that can be read. -/
def fionread : Post Nat := fun c =>
  match c.arrived with
  | [] => (some (c.rest.length, c), [])
  | n :: arrived => (some (min n c.rest.length, { c with arrived := arrived }), [])

def readBytes (n : Nat) : Post Str := fun c =>
  (some (c.rest.take n, { c with rest := c.rest.drop n }), [])

def blockLoop : (fuel : Nat) → (result : Str) → Post Str
  | 0, _ => endless
  | fuel + 1, result => do
    let avail ← fionread
    if avail = 0 then pure result
    else do
      let bytes ← readBytes (min avail receiveBlockLen)
      if bytes.length < min avail receiveBlockLen then pure (result ++ bytes)
      else blockLoop fuel (result ++ bytes)

def receiveBlock (fuel : Nat) : Post Str := do
  let c ← get
  if c.isValid then blockLoop fuel [] else pure []

/-- Whether the disk took all of it. -/
def writeFile (v : Server) (bytes : Str) : Post Bool := do
  let c ← get
  modify fun c => { c with file := (c.file ++ bytes).take (max v.room c.file.length) }
  pure (c.file.length + bytes.length ≤ v.room)

def fileBlockLoop (v : Server) (length : Nat) : (fuel readbytes retries : Nat) → Post Nat
  | 0, _, _ => endless
  | fuel + 1, readbytes, retries => do
    let avail ← fionread
    if avail = 0 then
      if nonBlockingMaxRetries < retries + 1 then pure readbytes
      else if readbytes + receiveBlockLen < length then
        fileBlockLoop v length fuel readbytes (retries + 1)
      else pure readbytes
    else do
      let bytes ← readBytes (min avail receiveBlockLen)
      let ok ← writeFile v bytes
      if ok then
        if readbytes + bytes.length + receiveBlockLen < length then
          fileBlockLoop v length fuel (readbytes + bytes.length) 0
        else pure (readbytes + bytes.length)
      else pure 0

def receiveFileGivenLength (v : Server) (fuel length : Nat) : Post Nat :=
  fileBlockLoop v length fuel 0 0

/-! ## One part -/

/-- `contentLen -= n` for 32 bits. -/
def decrease (contentLen n : Nat) : Post Nat := do
  log (.subtract contentLen n)
  pure (if n ≤ contentLen then contentLen - n else (contentLen + 2 ^ 32 - n) % 2 ^ 32)

def setParameter (name value : Str) : Post Unit :=
  modify fun c => { c with parameterList := c.parameterList.set name value }

inductive Disposition where
  | file (name filename : Str)
  | parameter (name : Str)

/-- What the line says about a part; `none` for the lines that end the request. -/
def disposition (line : Str) : Option Disposition :=
  match ySplitStringExact line (chars "name=\"") with
  | (false, _, _) => none
  | (true, _, right) =>
    match ySplitStringExact right (chars "\"") with
    | (false, _, _) => none
    | (true, name, right) =>
      if chars "filename" <:+: line then
        match ySplitStringExact right (chars "filename=\"") with
        | (false, _, _) => none
        | (true, _, right) =>
          match ySplitStringExact right (chars "\"") with
          | (false, _, _) => none
          | (true, filename, _) => some (.file name filename)
      else some (.parameter name)

/-- Whether a line ends with CRLF, and the line without it. -/
def splitCrlf (line : Str) : Bool × Str :=
  if crlf <:+ line then (true, line.take (line.length - 2)) else (false, line)

/-- The CRLF of the line before, if there was one. -/
def storeCrlf (v : Server) (isCrlf : Bool) : Post Bool :=
  if isCrlf then writeFile v crlf else pure true

/-- The line without its CRLF, behind the one of the line before. The result says
whether it had one; nothing when the disk did not take all. -/
def storeLine (v : Server) (isCrlf : Bool) (line : Str) : Post (Option Bool) := do
  let ok ← storeCrlf v isCrlf
  if ok then do
    let ok ← writeFile v (splitCrlf line).2
    if ok then pure (some (splitCrlf line).1) else pure none
  else pure none

/-- The lines of a file up to a boundary: how many bytes were read and whether the
boundary ends the request; nothing when the disk did not take a line. -/
def fileLineLoop (v : Server) (boundary : Str) (contentLen : Nat) :
    (fuel readbytes : Nat) → (isCrlf : Bool) → Post (Option (Nat × Bool))
  | 0, _, _ => endless
  | fuel + 1, readbytes, isCrlf => do
    let line ← receiveLine v
    let readbytes := (readbytes + line.length) % 2 ^ 32
    if boundary <:+: line then
      pure (some (readbytes, decide (boundary ++ chars "--" <:+: line)))
    else do
      let stored ← storeLine v isCrlf line
      match stored with
      | none => pure none
      | some isCrlf =>
        if readbytes < contentLen ∧ line ≠ [] then
          fileLineLoop v boundary contentLen fuel readbytes isCrlf
        else pure (some (readbytes, false))

/-- The file in blocks, as long as the boundary is not near. -/
def receiveFileBlocks (v : Server) (fuel contentLen : Nat) : Post Nat :=
  if searchBoundaryLen < contentLen ∧ contentLen < 2 ^ 31 then do
    let readbytes ← receiveFileGivenLength v fuel (contentLen - searchBoundaryLen)
    decrease contentLen readbytes
  else pure contentLen

/-- The file in blocks, then in lines. -/
def receiveUpload (v : Server) (boundary : Str) (fuel contentLen : Nat) : Post Nat := do
  modify fun c => { c with file := [] }
  let contentLen ← receiveFileBlocks v fuel contentLen
  let found ← fileLineLoop v boundary contentLen fuel 0 false
  match found with
  | none => pure 0
  | some (readbytes, atEnd) => do
    let contentLen ← decrease contentLen readbytes
    if atEnd then do
      modify fun c => { c with uploads := c.uploads ++ [v.uploadFilename] }
      pure 0
    else pure contentLen

def handleFile (v : Server) (boundary : Str) (fuel contentLen : Nat) (name filename : Str) :
    Post Nat := do
  setParameter name (trim filename)
  let line ← receiveLine v
  let contentLen ← decrease contentLen line.length
  match ySplitStringExact line (chars "Content-Type:") with
  | (false, _, _) => pure 0
  | (true, _, mime) => do
    setParameter (name ++ chars "_mime") (trim mime)
    let line ← receiveLine v
    let contentLen ← decrease contentLen line.length
    if line = crlf then do
      setParameter (name ++ chars "_upload_filename") v.uploadFilename
      if v.opens then receiveUpload v boundary fuel contentLen else pure 0
    else pure 0

/-- What is subtracted for the value is the length of the line before. -/
def handleParameter (v : Server) (contentLen : Nat) (name : Str) : Post Nat := do
  let line ← receiveLine v
  let contentLen ← decrease contentLen line.length
  if line = crlf then do
    let value ← receiveLine v
    let contentLen ← decrease contentLen line.length
    setParameter name (trim (decodeString value))
    pure contentLen
  else pure 0

/-- One part of the body. -/
def handlePostBoundary (v : Server) (boundary : Str) (fuel contentLen : Nat) : Post Nat := do
  let line ← receiveLine v
  let contentLen ← decrease contentLen line.length
  if boundary <:+: line then
    if boundary ++ chars "--" <:+: line then pure 0
    else do
      let line ← receiveLine v
      let contentLen ← decrease contentLen line.length
      if chars "Content-Disposition:" <:+: line then
        match disposition line with
        | none => pure 0
        | some (.file name filename) => handleFile v boundary fuel contentLen name filename
        | some (.parameter name) => handleParameter v contentLen name
      else pure 0
  else pure contentLen

/-! ## The request -/

/-- Each round takes a line away. -/
def parseHeaderLoop : (fuel : Nat) → OrdMap Str Str → Str → OrdMap Str Str
  | 0, headers, _ => headers
  | fuel + 1, headers, header =>
    let (more, sheader, rest) := ySplitStringExact header crlf
    let headers :=
      match ySplitStringExact sheader (chars ":") with
      | (true, name, value) => headers.set name (trim value)
      | (false, _, _) => headers
    if more then parseHeaderLoop fuel headers rest else headers

def parseHeader (header : Str) : OrdMap Str Str :=
  parseHeaderLoop (header.length + 1) OrdMap.empty header

/-- Values of one name are joined by commas; every name is stored by its number too. -/
def parseParamsLoop : (fuel : Nat) → OrdMap Str Str → Str → OrdMap Str Str
  | 0, params, _ => params
  | fuel + 1, params, paramString =>
    let (more, param, rest) := ySplitStringExact paramString (chars "&")
    let (name, params) :=
      match ySplitStringExact param (chars "=") with
      | (true, name, value) =>
        let name := decodeString name
        let value := trim (decodeString value)
        let old := (params.find name).getD []
        (name, params.set name (if old = [] then value else old ++ chars "," ++ value))
      | (false, name, _) => (trim (decodeString name), params)
    let params := params.set (decNat (params.entries.length + 1)) name
    if more then parseParamsLoop fuel params rest else params

def parseParams (params : OrdMap Str Str) (paramString : Str) : OrdMap Str Str :=
  parseParamsLoop (paramString.length + 1) params paramString

def httpInternalServerError : Nat := 500

/-- The lines up to the first empty one; nothing when a line has no character. -/
def headerLoop (v : Server) : (fuel : Nat) → (rawHeader : Str) → Post (Option Str)
  | 0, _ => endless
  | fuel + 1, rawHeader => do
    let line ← receiveLine v
    if line = [] then do
      modify fun c => { c with errors := c.errors ++ [httpInternalServerError] }
      pure none
    else if line = crlf then pure (some (rawHeader ++ line))
    else headerLoop v fuel (rawHeader ++ line)

def boundaryLoop (v : Server) (boundary : Str) : (fuel contentLen : Nat) → Post Unit
  | 0, _ => endless
  | fuel + 1, contentLen => do
    let contentLen ← handlePostBoundary v boundary fuel contentLen
    if 0 < contentLen then boundaryLoop v boundary fuel contentLen else pure ()

def formLoop (contentLen : Nat) : (fuel : Nat) → (postHeader : Str) → Post Str
  | 0, _ => endless
  | fuel + 1, postHeader =>
    if postHeader.length < contentLen then do
      let block ← receiveBlock fuel
      formLoop contentLen fuel (postHeader ++ block)
    else pure postHeader

def multipart : Str := chars "multipart/form-data; boundary="

def urlencoded : Str := chars "application/x-www-form-urlencoded"

/-- `content_len` is unsigned: a negative number wraps. -/
def contentLength (headers : OrdMap Str Str) : Nat :=
  match (headers.find (chars "Content-Length")).getD [] with
  | [] => 0
  | s => (atoi s).toUInt32.toNat

def contentType (headers : OrdMap Str Str) : Str :=
  (headers.find (chars "Content-Type")).getD []

/-- The whole request. -/
def handlePost (v : Server) (fuel : Nat) : Post Bool := do
  let header ← headerLoop v fuel []
  match header with
  | none => pure false
  | some rawHeader => do
    let headers := parseHeader rawHeader
    let contentLen := contentLength headers
    let type := contentType headers
    if multipart <+: type then do
      boundaryLoop v (chars "--" ++ type.drop multipart.length) fuel contentLen
      pure true
    else if type = urlencoded then do
      let postHeader ← receiveBlock fuel
      let postHeader ← formLoop contentLen fuel postHeader
      modify fun c => { c with parameterList := parseParams c.parameterList postHeader }
      pure true
    else pure true

end Tuxbox.Nhttpd
