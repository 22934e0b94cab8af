import Hnatsd.Misc.Decimal

/-!
# Files in chunks

A peer sends a request or a reply to another one as a file, over a gRPC stream: the client cuts the
bytes into chunks, each with a checksum of its own and one of all bytes up to its end; the server
checks the chunks as they come and decodes the bytes when it has the last one.

The stream is a list of chunks. What the network does to the client is given by its environment;
the server's part depends on the chunks and on how the stream ends. What the server does with a
message that it has decoded is left out. The hash is a parameter, and a hasher is the bytes that
have been written to it.
-/

namespace Hnatsd.Peers
open Misc

/-- `pb.BigFileChunk` (`sbf.pb.go:39-79`). -/
structure BigFileChunk where
  filepath : Bytes
  sizeInBytes : Int
  sendTime : Nat
  originalStartSendTime : Nat
  blake2B : Bytes
  blake2BCumulative : Bytes
  data : Bytes
  chunkNumber : Int
  isLastChunk : Bool
  isBcastSet : Bool
  deriving DecidableEq

/-- `pb.BigFileAck` (`sbf.pb.go:156-162`). -/
structure BigFileAck where
  filepath : Bytes
  sizeInBytes : Int
  recvTime : Nat
  wholeFileBlake2B : Bytes
  err : Bytes
  deriving DecidableEq

section Client

/-- What `stream.Send` returns for a chunk. -/
inductive SendResult where
  | sent
  | eof
  | failed
  deriving DecidableEq

/-- What a client meets: whether its tries to open a stream succeed, the readings of its clock, what
`Send` returns for each chunk, and what `CloseAndRecv` returns once the chunks are sent. -/
structure ClientEnv where
  opens : Nat → Bool
  clock : Nat → Nat
  send : Nat → SendResult
  closeAndRecv : List BigFileChunk → Except Bytes BigFileAck

inductive ClientPanic where
  | eofBeforeLast (path : Bytes) (chunkNumber : Int) (numChunk : Nat)
  | send
  | sizeMismatch
  deriving DecidableEq

inductive ClientError where
  | noStream
  | closeAndRecv (text : Bytes)
  deriving DecidableEq

inductive ClientResult where
  | returned (err : Option ClientError)
  | panicked (p : ClientPanic)
  deriving DecidableEq

/-- The file a client sends, and how. -/
structure FileToSend where
  path : Bytes
  data : Bytes
  maxChunkSize : Nat
  isBcastSet : Bool

/-- The number of chunks (`client.go:65-69`). -/
def FileToSend.numChunk (f : FileToSend) : Nat :=
  if 0 < f.data.length % f.maxChunkSize then f.data.length / f.maxChunkSize + 1
  else f.data.length / f.maxChunkSize

/-- The variables of the loop: `i`, `nextByte`, the client's hasher and `c.nextChunk`. -/
structure SendLoop where
  i : Nat := 0
  nextByte : Nat := 0
  hasher : Bytes := []
  nextChunk : Int := 0

variable (blake2b : Bytes → Bytes) (env : ClientEnv) (f : FileToSend)

/-- The chunk an iteration makes, and the variables after it (`client.go:74-93`). -/
def makeChunk (s : SendLoop) : BigFileChunk × SendLoop :=
  let sendLen := min f.maxChunkSize (f.data.length - s.i * f.maxChunkSize)
  let chunk := (f.data.drop s.nextByte).take sendLen
  let hasher := s.hasher ++ chunk
  ({ isBcastSet := f.isBcastSet
     filepath := f.path
     sizeInBytes := sendLen
     sendTime := env.clock (s.i + 1)
     originalStartSendTime := env.clock 0
     blake2B := blake2b chunk
     blake2BCumulative := blake2b hasher
     data := chunk
     chunkNumber := s.nextChunk
     isLastChunk := (s.i : Int) = (f.numChunk : Int) - 1 },
   { i := s.i + 1, nextByte := s.nextByte + sendLen, hasher := hasher, nextChunk := s.nextChunk + 1 })

/-- The loop (`client.go:73-112`) with the given number of iterations left: the chunks sent, and the
panic if there is one. -/
def sendChunks : Nat → SendLoop → List BigFileChunk × Option ClientPanic
  | 0, _ => ([], none)
  | left + 1, s =>
      let (nk, s') := makeChunk blake2b env f s
      match env.send s.i with
      | .sent =>
          let (sent, panic) := sendChunks left s'
          (nk :: sent, panic)
      | .eof =>
          if nk.isLastChunk then ([], none)
          else ([], some (.eofBeforeLast f.path nk.chunkNumber f.numChunk))
      | .failed => ([], some .send)

/-- `runSendFile` (`client.go:40-128`): the chunks sent and how it ends. It tries to open a stream
six times. -/
def runSendFile : List BigFileChunk × ClientResult :=
  if (List.range 6).any env.opens then
    match sendChunks blake2b env f f.numChunk {} with
    | (sent, some p) => (sent, .panicked p)
    | (sent, none) =>
        match env.closeAndRecv sent with
        | .error text => (sent, .returned (some (.closeAndRecv text)))
        | .ok reply =>
            if (f.data.length : Int) ≠ reply.sizeInBytes then (sent, .panicked .sizeMismatch)
            else (sent, .returned none)
  else ([], .returned (some .noStream))

end Client

section Server

/-- `%v` of an integer. -/
def formatInt (n : Int) : Bytes := if n < 0 then bytesOf "-" ++ decimal n.natAbs else decimal n.natAbs

def hexDigit (n : Nat) : UInt8 := UInt8.ofNat (if n < 10 then 48 + n else 87 + n)

/-- `%x` of bytes. -/
def formatHex (b : Bytes) : Bytes := b.flatMap fun c => [hexDigit (c.toNat / 16), hexDigit (c.toNat % 16)]

inductive SendFileError where
  | recv (text : Bytes)
  | cumulative (chunkNumber : Int) (filepath observed expected : Bytes)
  | size (sizeInBytes len : Int)
  | checksum (chunkNumber : Int)
  | unmarshalRequest (text : Bytes)
  | unmarshalReply (text : Bytes)
  deriving DecidableEq

def SendFileError.text : SendFileError → Bytes
  | .recv text => text
  | .cumulative chunkNumber filepath observed expected =>
      bytesOf "cumulative checksums failed at chunk " ++ formatInt chunkNumber ++ bytesOf " of '" ++
        filepath ++ bytesOf "'. Observed: '" ++ formatHex observed ++ bytesOf "', expected: '" ++
        formatHex expected ++ bytesOf "'."
  | .size sizeInBytes len =>
      formatInt sizeInBytes ++ bytesOf " == nk.SizeInBytes != int64(len(nk.Data)) == " ++ formatInt len
  | .checksum chunkNumber =>
      bytesOf "chunk " ++ formatInt chunkNumber ++ bytesOf " bad .Data, checksum mismatch!"
  | .unmarshalRequest text =>
      bytesOf "gserv/server.go SendFile(): req.UnmarshalMsg() errored '" ++ text ++ bytesOf "'"
  | .unmarshalReply text =>
      bytesOf "gserv/server.go SendFile(): reply.UnmarshalMsg() errored '" ++ text ++ bytesOf "'"

/-- How a call of `SendFile` ends: it returns, or it panics because the chunks have two paths. -/
inductive SendFileResult where
  | returned (err : Option SendFileError)
  | confusing (path filepath : Bytes)
  deriving DecidableEq

/-- The variables of `SendFile` (`server.go:55-70, 97-99`). -/
structure Receiving where
  chunkCount : Int := 0
  path : Bytes := []
  hasher : Bytes := []
  bytesSeen : Int := 0
  isBcastSet : Bool := false
  firstChunkSeen : Bool := false
  allChunks : Bytes := []
  deriving DecidableEq

/-- The end of a call: its variables, the calls of `UnmarshalMsg`, each with the kind of message it
expects, and the result. -/
structure Received where
  vars : Receiving
  decoded : List (Bool × Bytes)
  result : SendFileResult
  deriving DecidableEq

/-- What the deferred function acknowledges (`server.go:72-95`). -/
def Received.ack (blake2b : Bytes → Bytes) (r : Received) (endTime : Nat) : BigFileAck where
  filepath := r.vars.path
  sizeInBytes := r.vars.bytesSeen
  recvTime := endTime
  wholeFileBlake2B := blake2b r.vars.hasher
  err := match r.result with
    | .returned (some err) => err.text
    | .returned none | .confusing _ _ => []

/-- The first chunk says what kind of message the file is (`server.go:117-129`). -/
def Receiving.start (s : Receiving) (nk : BigFileChunk) : Receiving :=
  if s.firstChunkSeen then s else { s with isBcastSet := nk.isBcastSet, firstChunkSeen := true }

/-- The first path that is not empty is the file's (`server.go:138-141`). -/
def Receiving.name (s : Receiving) (nk : BigFileChunk) : Receiving :=
  if s.path = [] then { s with path := nk.filepath } else s

/-- The error for a message that cannot be decoded, a request or a reply. -/
def unmarshalError (isBcastSet : Bool) (text : Bytes) : SendFileError :=
  if isBcastSet then .unmarshalRequest text else .unmarshalReply text

variable (blake2b : Bytes → Bytes) (unmarshal : Bool → Bytes → Option Bytes)

/-- An iteration of the loop for a chunk (`server.go:117-216`). It goes on with the variables, or the
call ends. `unmarshal` gives the text of the error of `UnmarshalMsg`. -/
def recvChunk (s : Receiving) (nk : BigFileChunk) : Except Received Receiving :=
  let s := s.start nk
  let s := { s with hasher := s.hasher ++ nk.data }
  let cumul := blake2b s.hasher
  if cumul ≠ nk.blake2BCumulative then
    .error ⟨s, [],
      .returned (some (.cumulative nk.chunkNumber nk.filepath cumul nk.blake2BCumulative))⟩
  else
    let s := s.name nk
    if s.path ≠ [] ∧ s.path ≠ nk.filepath then .error ⟨s, [], .confusing s.path nk.filepath⟩
    else if nk.sizeInBytes ≠ nk.data.length then
      .error ⟨s, [], .returned (some (.size nk.sizeInBytes nk.data.length))⟩
    else if blake2b nk.data ≠ nk.blake2B then
      .error ⟨s, [], .returned (some (.checksum nk.chunkNumber))⟩
    else
      let s := { s with
        bytesSeen := s.bytesSeen + nk.data.length
        chunkCount := s.chunkCount + 1
        allChunks := s.allChunks ++ nk.data }
      if nk.isLastChunk then
        .error ⟨s, [(s.isBcastSet, s.allChunks)],
          .returned ((unmarshal s.isBcastSet s.allChunks).map (unmarshalError s.isBcastSet))⟩
      else .ok s

/-- The loop (`server.go:101-218`) on the chunks that are still to come; `ending` is the error of
`Recv` behind them, or none at the end of the file. -/
def recvLoop (ending : Option Bytes) : Receiving → List BigFileChunk → Received
  | s, [] => ⟨s, [], .returned (ending.map .recv)⟩
  | s, nk :: chunks =>
      match recvChunk blake2b unmarshal s nk with
      | .error r => r
      | .ok s => recvLoop ending s chunks

/-- `SendFile` of the server (`server.go:55-220`). -/
def sendFile (ending : Option Bytes) (chunks : List BigFileChunk) : Received :=
  recvLoop blake2b unmarshal ending {} chunks

end Server

end Hnatsd.Peers
