import XCalls.Lib.Memory
import XCalls.XCall.Circular

/-!
# Datagrams in circular buffers: `x_recvmsg.c`

* `Circular.word`, `Circular.setWord`   the 32-bit fields of a header in the buffer;
* `Datagram`       what the kernel delivers;
* `Circular.deliver`   a datagram from the kernel is stored as a record;
* `Circular.copyOut`   a record is copied to the application's `struct msghdr`;
* `recvmsgSpeculative`, `recvmsgDirect`   `__txc_recvmsg` behind the sentinel, in a retryable
                   transaction and otherwise.

Addresses are distances from `buf`, in 32 bits.  A `struct txc_socket_msghdr_s` has 40 bytes:
`msg_name` at 0, `msg_namelen` at 16, `msg_iov_base` at 20, `msg_iov_len` at 24, `msg_control` at 28,
`msg_controllen` at 32 and `msg_flags` at 36.
-/

namespace XCalls

/-! ## words -/

namespace Circular

/-- the word at `&buffer->buf[i]` -/
def word (b : Circular) (i : Int) : UInt32 :=
  (b.mem i).toUInt32 + (b.mem (i + 1)).toUInt32 * 0x100 + (b.mem (i + 2)).toUInt32 * 0x10000 +
    (b.mem (i + 3)).toUInt32 * 0x1000000

def setWord (b : Circular) (i : Int) (w : UInt32) : Circular := b.store i (Memory.wordBytes w)

end Circular

/-! ## records -/

/-- what `recvmsg` delivers: the sender as a `struct sockaddr_in`, the bytes and the control data -/
structure Datagram where
  name : List UInt8
  namelen : UInt32
  payload : List UInt8
  control : List UInt8
  flags : UInt32
  deriving DecidableEq

/-- `sizeof(txc_socket_msghdr_t)` -/
def msghdrSize : Nat := 40
/-- `sizeof(struct sockaddr_in)` -/
def sockaddrSize : Nat := 16
/-- `TXC_DGRAM_MAX_SIZE` -/
def dgramMaxSize : Nat := 1024 * 64
/-- `TXC_CONTROLMSG_MAX_SIZE` -/
def controlmsgMaxSize : Nat := 1024 * 2

/-- `temp_buffer_msghdr + sizeof(txc_socket_msghdr_t)` counts in headers, not in bytes -/
def payloadAt : Nat := msghdrSize * msghdrSize
/-- `temp_buffer_msghdr + sizeof(txc_socket_msghdr_t) + TXC_DGRAM_MAX_SIZE`, likewise -/
def controlAt : Nat := msghdrSize * (msghdrSize + dgramMaxSize)

namespace Circular

/-- `len`: the header, and the lengths that it holds -/
def recordLen (b : Circular) (i : Int) : UInt32 :=
  UInt32.ofNat msghdrSize + b.word (i + 24) + b.word (i + 32)

/-- an address that the header holds, as a distance from `buf` -/
def address (b : Circular) (i : Int) : Int := index (b.word i)

/-- the header at `i` is given its two addresses before `recvmsg` is called -/
def prepare (b : Circular) (i : Int) : Circular :=
  (b.setWord (i + 20) (Int32.ofInt (i + payloadAt)).toUInt32).setWord (i + 28)
    (Int32.ofInt (i + controlAt)).toUInt32

/-- `recvmsg` fills the name, the payload and the control area -/
def receive (b : Circular) (i : Int) (d : Datagram) : Circular :=
  ((b.store i (d.name.take sockaddrSize)).store (b.address (i + 20))
    (d.payload.take dgramMaxSize)).store (b.address (i + 28)) (d.control.take controlmsgMaxSize)

/-- the lengths of the datagram, as `recvmsg` reports them -/
def describe (b : Circular) (i : Int) (d : Datagram) : Circular :=
  (((b.setWord (i + 24) (UInt32.ofNat (d.payload.take dgramMaxSize).length)).setWord (i + 16)
    d.namelen).setWord (i + 32) (UInt32.ofNat (d.control.take controlmsgMaxSize).length)).setWord
      (i + 36) d.flags

/-- `primary_tail += …` or `secondary_tail += …` -/
def growRecord (b : Circular) (q : Queue) (i : Int) : Circular :=
  b.grow q (b.recordLen i).toNat

/-- the control data are moved behind the payload; the header keeps their old address -/
def shiftControl (b : Circular) (i : Int) : Circular :=
  if b.word (i + 32) ≠ 0 then
    b.store (b.address (i + 20) + (b.word (i + 24)).toNat)
      (b.bytes (b.address (i + 28)) (b.word (i + 32)).toNat)
  else b

/-- the branch that asks the kernel, once a place is found; an error and an empty datagram leave the
fields of the header as they were -/
def deliver (b : Circular) (q : Queue) (i : Int) (recv : Except Errno Datagram) : Circular :=
  match recv with
  | .error _ => b.prepare i
  | .ok d =>
    let b := (b.prepare i).receive i d
    if 0 < (d.payload.take dgramMaxSize).length then
      ((b.describe i d).growRecord q i).shiftControl i
    else b

end Circular

/-! ## x_recvmsg -/

/-- `ret`, what is stored in the application's `struct msghdr`, and `local_result`; `data` are the
bytes for each `iovec` -/
structure RecvReply where
  ret : Int
  name : List UInt8
  namelen : UInt32
  data : List (List UInt8)
  control : List UInt8
  flags : UInt32
  localResult : Errno
  deriving DecidableEq

/-- a call that returns before anything is copied -/
def recvFailed (ret : Int) (e : Errno) : RecvReply := ⟨ret, [], 0, [], [], 0, e⟩

namespace Circular

/-- the loop over the `iovec`s, with `s` bytes copied so far -/
def scatter (b : Circular) (base : Int) : Nat → List Nat → List (List UInt8)
  | _, [] => []
  | s, len :: lens => b.bytes (base + s) len :: scatter b base (s + len) lens

/-- the copy to the application; `ret` is the room in the `iovec`s -/
def copyOut (b : Circular) (i : Int) (lens : List Nat) : RecvReply :=
  { ret := intOf lens.sum
    name := b.bytes i sockaddrSize
    namelen := b.word (i + 16)
    data := b.scatter (b.address (i + 20)) 0 lens
    control := b.bytes (b.address (i + 28)) (b.word (i + 32)).toNat
    flags := b.word (i + 36)
    localResult := 0 }

/-- the space that a record may need -/
def neededBytes : UInt32 := UInt32.ofNat (msghdrSize + dgramMaxSize + controlmsgMaxSize)

end Circular

/-- the branch without buffered data; `recv` is what `txc_libc_recvmsg` responds -/
def recvmsgKernel (b : Circular) (lens : List Nat) (recv : Except Errno Datagram) :
    RecvReply × Circular :=
  match b.findSpace Circular.neededBytes with
  | none => (recvFailed (-1) Errno.enomem, b)
  | some (q, i) => ((b.deliver q i recv).copyOut i lens, b.deliver q i recv)

/-- the speculative branch once the buffer is in the state `TXC_BUFFER_STATE_SPECULATIVE`; `garbage`
is what `len` holds when it was never set -/
def recvmsgServe (b : Circular) (lens : List Nat) (garbage : UInt32)
    (recv : Except Errno Datagram) : RecvReply × Circular :=
  if b.speculativePrimaryTail ≠ b.speculativePrimaryHead then
    let i := Circular.index b.speculativePrimaryHead
    (b.copyOut i lens,
      { b with speculativePrimaryHead := b.speculativePrimaryHead + b.recordLen i })
  else if b.speculativeSecondaryTail ≠ b.speculativeSecondaryHead then
    let i := Circular.index b.speculativeSecondaryHead
    (b.copyOut i lens,
      { b with speculativeSecondaryHead := b.speculativeSecondaryHead + garbage })
  else recvmsgKernel b lens recv

/-- `__txc_recvmsg` in a retryable transaction that has the sentinel -/
def recvmsgSpeculative (b : Circular) (lens : List Nat) (mallocOk : Bool) (garbage : UInt32)
    (recv : Except Errno Datagram) : RecvReply × Circular :=
  match b.state with
  | .speculative => recvmsgServe b lens garbage recv
  | .nonSpeculative =>
    if mallocOk then recvmsgServe b.snapshot lens garbage recv
    else (recvFailed (-1) Errno.enomem, b)

/-- what the kernel stores for a call that it serves itself -/
def recvFromKernel (lens : List Nat) (errno : Int) (recv : Except Errno Datagram) : RecvReply :=
  match recv with
  | .error e => recvFailed (-1) e
  | .ok d =>
    let payload := d.payload.take lens.sum
    { ret := intOf payload.length
      name := d.name
      namelen := d.namelen
      data := (lens.foldl (fun (s : List (List UInt8) × List UInt8) len =>
        (s.1 ++ [s.2.take len], s.2.drop len)) ([], payload)).1
      control := d.control
      flags := d.flags
      localResult := errno }

/-- `__txc_recvmsg` outside a retryable transaction; `errno` is what `errno` holds -/
def recvmsgDirect (b : Circular) (lens : List Nat) (errno : Int) (recv : Except Errno Datagram) :
    RecvReply × Circular :=
  if b.primaryTail ≠ b.primaryHead then
    let i := Circular.index b.primaryHead
    (b.copyOut i lens, { b with primaryHead := b.primaryHead + b.recordLen i })
  else if b.secondaryTail ≠ b.secondaryHead then
    let i := Circular.index b.secondaryHead
    (b.copyOut i lens,
      { b with
        primaryTail := b.secondaryTail, primaryHead := b.secondaryHead + b.recordLen i
        secondaryHead := 0, secondaryTail := 0 })
  else (recvFromKernel lens errno recv, b)

end XCalls
