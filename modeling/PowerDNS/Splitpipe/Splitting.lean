import PowerDNS.Lib.ScheduledRun
import PowerDNS.Splitpipe.RingBuffer
import PowerDNS.Splitpipe.Stretches

/-!
# Splitting the input over volumes: `SplitpipeClass::go`

The main loop reads what there is to read into the buffer, and writes what the output command takes from it. What
there is to read, and how much is taken, is up to the outside (`SplitTurn`), as are the exit of an output command
whose input has been closed, and the key that the user presses. A user who interrupts, and an output command that
ends before its input does, are left out.
-/

namespace PowerDNS

open ScheduledRun

/-! ### The code -/

/-- The parameters of a run, and its session. `go` does not begin with a buffer or a volume of size zero. -/
structure SplitParameters extends SplitSession where
  bufferSize : Nat
  volumeSize : UInt64
  noPrompt : Bool
  bufferSize_pos : 0 < bufferSize
  volumeSize_pos : 0 < volumeSize

/-- `outputStatus`. -/
inductive OutputStatus
  | Dead
  | Working
  | Dying
  deriving DecidableEq

/-- The variables of `go`: what is left to be read, what the output command has been given, and what those before
it were given; and whether `go` has returned, or has failed. -/
structure Splitpipe where
  unread : Octets
  rb : RingBuffer
  inputEof : Bool := false
  outputStatus : OutputStatus := .Dead
  d_firstvolume : Bool := true
  waitingForUser : Bool := false
  d_amountOutputVolume : UInt64 := 0
  leftInStretch : Nat := 0
  volumeNumber : Nat := 0
  md5 : MD5Summer := {}
  volume : Octets := []
  volumes : List Octets := []
  exit : Option Bool := none

/-- What the outside does during a turn of the main loop: the output command exits, if its input is closed; the user
presses a key; there are octets to read, one more than `readable` says; the output is ready, and takes at each write
one octet more than `writes` says, and then no more. `pieces` are those of the writes of meta-data. -/
structure SplitTurn where
  exited : Bool
  enter : Bool
  readable : Option Nat
  writable : Bool
  writes : List Nat
  pieces : Nat → List Nat

namespace Splitpipe

variable (P : SplitParameters)

/-- `go`, in front of the main loop. -/
def start (input : Octets) : Splitpipe := { unread := input, rb := RingBuffer.ofSize P.bufferSize }

/-- `writen(d_outputfd, …)`. -/
def output (s : Splitpipe) (pieces : List Nat) (data : Octets) : Splitpipe :=
  { s with volume := (writen pieces data s.volume).2 }

/-- `spawnOutputThread()`, and `outputPerVolumeStretches(volumeNumber++)`. -/
def openVolume (t : SplitTurn) (s : Splitpipe) : Splitpipe :=
  let stretches := P.perVolumeStretches s.volumeNumber
  { s.output (t.pieces 0) stretches with
    volumeNumber := s.volumeNumber + 1
    d_amountOutputVolume := UInt64.ofNat stretches.length
    outputStatus := .Working
    waitingForUser := false
    d_firstvolume := false }

/-- A new volume is begun, or the user is asked for it, when the buffer is more than half full. -/
def prepareVolume (t : SplitTurn) (s : Splitpipe) : Splitpipe :=
  if s.waitingForUser = false ∧ s.outputStatus = .Dead ∧ (s.inputEof ∨ P.bufferSize < 2 * s.rb.available) then
    if P.noPrompt = false ∧ s.d_firstvolume = false then { s with waitingForUser := true } else openVolume P t s
  else s

/-- `checkDeathOutputCommand()`. -/
def reap (t : SplitTurn) (s : Splitpipe) : Splitpipe :=
  if t.exited ∧ s.outputStatus = .Dying then { s with outputStatus := .Dead } else s

/-- The key of a user who was asked for it. -/
def userEnters (t : SplitTurn) (s : Splitpipe) : Splitpipe :=
  if t.enter ∧ s.waitingForUser then openVolume P t s else s

/-- `read(0, …)`: `bytesRead`, and the state. -/
def readInput (readable : Nat) (s : Splitpipe) : Nat × Splitpipe :=
  let ret := min (readable + 1) (min (min 100000 s.rb.room) s.unread.length)
  if ret = 0 then (0, { s with inputEof := true })
  else
    match s.rb.store (s.unread.take ret) with
    | some rb => (ret, { s with rb := rb, unread := s.unread.drop ret })
    | none => (0, { s with exit := some false })

/-- `leftInVolume`; `volumeSize` leaves room for the last stretch. -/
def leftInVolume (s : Splitpipe) : Nat := (P.volumeSize - 2048 - s.d_amountOutputVolume).toNat

/-- The end of a volume, or of the session: `outputChecksum`, and the last stretch. -/
def endVolume (t : SplitTurn) (eof : StretchType) (s : Splitpipe) : Splitpipe :=
  let s := s.output (t.pieces 1) (appendStretch .MD5Checksum s.md5.get [])
  let s := s.output (t.pieces 2) (stretchHeader eof 0)
  { s with volumes := s.volumes ++ [s.volume], volume := [] }

/-- A stretch of data of some size is begun. -/
def startStretch (t : SplitTurn) (size : Nat) (s : Splitpipe) : Splitpipe :=
  { s.output (t.pieces 1) (stretchHeader .Data size) with
    leftInStretch := size
    d_amountOutputVolume := s.d_amountOutputVolume + 3 }

/-- The volume is full. -/
def closeVolume (t : SplitTurn) (s : Splitpipe) : Splitpipe :=
  { s.endVolume t .VolumeEOF with outputStatus := .Dying, d_amountOutputVolume := 0 }

/-- `write(d_outputfd, rbuffer, len)` has taken some octets. -/
def wrote (ret : Nat) (s : Splitpipe) : Splitpipe :=
  { s with
    volume := s.volume ++ s.rb.shown ret
    md5 := s.md5.feed (s.rb.shown ret)
    rb := s.rb.advance ret
    d_amountOutputVolume := s.d_amountOutputVolume + UInt64.ofNat ret
    leftInStretch := s.leftInStretch - ret }

/-- A turn of the inner loop; `total` is how many octets have been written in the turns before. -/
def writeOnce (t : SplitTurn) (bytesRead : Nat) (taken : Option Nat) : Nat × Splitpipe → Next (Nat × Splitpipe)
  | (total, s) =>
    let s := { s with rb := s.rb.get }
    let lenAvailable := s.rb.contiguousAvailable
    let leftInVolume := s.leftInVolume P
    -- Only start a new stretch if there is room for at least 1 byte.
    if 3 ≤ leftInVolume ∧ s.leftInStretch = 0 then
      .leave (total, s.startStretch t (min (min 0xffff lenAvailable) (leftInVolume - 3)))
    else
      let len := min (min lenAvailable leftInVolume) s.leftInStretch
      if len = 0 then .leave (total, s.closeVolume t)
      else
        match taken with
        | none => .leave (total, s)
        | some n =>
          let ret := min len (n + 1)
          let s := s.wrote ret
          if total + ret < bytesRead ∧ s.rb.available ≠ 0 then .again (total + ret, s) else .leave (total + ret, s)

/-- The inner loop: the state behind it, and those in which its turns began. -/
def writeData (t : SplitTurn) (bytesRead : Nat) (s : Splitpipe) : Splitpipe × List Splitpipe :=
  let last := loop (writeOnce P t bytesRead) t.writes (0, s)
  (last.1.2, last.2.map Prod.snd)

/-- The main loop is left. -/
def finish (t : SplitTurn) (s : Splitpipe) : Splitpipe :=
  if s.outputStatus = .Working then { s.endVolume t .SessionEOF with exit := some true }
  else { s with exit := some true }

/-- A turn of the main loop until something is written: whether this happens, `bytesRead`, and the state. -/
def beforeWriting (t : SplitTurn) (s : Splitpipe) : Bool × Nat × Splitpipe :=
  let s := (s.prepareVolume P t).reap t
  -- What `select` is asked for.
  let input := !s.inputEof && s.rb.room != 0
  let output := s.rb.available != 0 && s.outputStatus = .Working
  let s := s.userEnters P t
  match t.readable with
  | some readable => (output && t.writable, if input then s.readInput readable else (0, s))
  | none => (output && t.writable, 0, s)

/-- A turn of the main loop behind that. -/
def afterReading (t : SplitTurn) : Bool × Nat × Splitpipe → Splitpipe
  | (writing, bytesRead, s) =>
    if s.exit.isSome then s
    else
      let s := if writing then (s.writeData P t bytesRead).1 else s
      if s.inputEof ∧ s.rb.available = 0 then s.finish t else s

/-- A turn of the main loop. -/
def turn (t : SplitTurn) (s : Splitpipe) : Splitpipe :=
  if s.exit.isSome then s else afterReading P t (s.beforeWriting P t)

/-- The states in which the turns of the inner loop begin. -/
def heads (t : SplitTurn) (s : Splitpipe) : List Splitpipe :=
  if s.exit.isSome then []
  else
    match s.beforeWriting P t with
    | (true, bytesRead, s) => if s.exit.isSome then [] else (s.writeData P t bytesRead).2
    | (false, _) => []

end Splitpipe

end PowerDNS
