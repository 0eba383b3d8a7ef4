import Mathlib.Data.List.Basic
import SipPerf.Lib.Buckets

/-!
# The Store of Acknowledgements

The ACK requests of `libre/src/sipsess/ack.c`, which the repository has
rewritten. An INVITE that is answered with a 2xx is acknowledged, and a record
of that is kept for as long as the answer may be repeated, so that each
repetition can be acknowledged again. The record does not hold the request. It
refers to the dialog and has the sequence number, and the request is encoded
anew every time.

A dialog of `libre/src/sip/dialog.c` is named by its number in the order of
allocation. That of an outgoing call is made by `sip_dialog_alloc`. Its Call-ID
and its local tag are random numbers in hexadecimal, and the remote tag comes
with the answer. That of an incoming call is made by `sip_dialog_accept`, with
the Call-ID of the caller, whatever that is. It is only outgoing calls that
have their INVITE answered and acknowledged.

Strings are lists of bytes, C strings without their terminator. The table of
records uses the hash functions of `libre/src/hash/func.c`, and there are two
of them in play: a record is filed by the hash of a C string, which adds plain
`char` values, and looked for by the hash of a piece of the message, which
adds unsigned bytes.

`out` records the requests that the stack has accepted. Whether it accepts a
request is given with the event, as the error it returns.

## Main definitions

* `Dialog`, `SipMsg`, `Ack`, `SessSock`: The state, and the messages.
* `hashJoaat`, `hashJoaatStr`: The hash functions.
* `sipDialogAlloc`, `sipDialogAccept`, `sipDialogCreate`, `sipDialogEncode`,
  `sipDialogCmp`: Dialogs.
* `sipsessAck`, `sipsessAckAgain`, `responseHandler`: Acknowledgements.
* `AckEvent`, `ackStep`: The events on one socket, in any order.
-/

namespace SipPerf

namespace AckStore

/-- The bytes of a string. -/
abbrev Bytes := List UInt8

def enoent : Nat := 2

def einval : Nat := 22

/-! ## Hashing -/

def joaatMix (hash x : UInt32) : UInt32 :=
  -- Arithmetic is that of `uint32_t`, which wraps around.
  let hash := hash + x
  let hash := hash + (hash <<< 10)
  hash ^^^ (hash >>> 6)

def joaatFinish (hash : UInt32) : UInt32 :=
  let hash := hash + (hash <<< 3)
  let hash := hash ^^^ (hash >>> 11)
  hash + (hash <<< 15)

/-- `hash_joaat`, over unsigned bytes. -/
def hashJoaat (key : Bytes) : UInt32 :=
  joaatFinish (key.foldl (fun hash b => joaatMix hash b.toUInt32) 0)

/-- A plain `char` added to a 32-bit value. It is signed. -/
def charToUInt32 (b : UInt8) : UInt32 :=
  if b < 128 then b.toUInt32 else b.toUInt32 + 0xffffff00

/-- `hash_joaat_str`, over plain characters. -/
def hashJoaatStr (str : Bytes) : UInt32 :=
  joaatFinish (str.foldl (fun hash b => joaatMix hash (charToUInt32 b)) 0)

/-! ## Dialogs -/

inductive Method where
  | invite
  | ack
  | bye
  | other
deriving DecidableEq

/-- The parts of a dialog that identify it, and its local sequence number.
    `outgoing` says which side of the call it is, and is not in the source. -/
structure Dialog where
  outgoing : Bool
  callid : Bytes
  ltag : Bytes
  rtag : Option Bytes
  lseq : UInt32
deriving DecidableEq

/-- The parts of a message that are looked at. -/
structure SipMsg where
  req : Bool
  scode : Nat
  callid : Bytes
  fromTag : Bytes
  toTag : Bytes
  cseqNum : UInt32
  cseqMet : Method
deriving DecidableEq

/-- A request as it is sent. -/
structure Request where
  met : Method
  callid : Bytes
  cseq : UInt32
deriving DecidableEq

/-- A lowercase hexadecimal digit. -/
def hexDigit (n : Nat) : UInt8 :=
  if n < 10 then UInt8.ofNat (48 + n) else UInt8.ofNat (87 + n)

/-- The string that `x64_strdup` makes of a 64-bit value. -/
def x64Strdup (val : UInt64) : Bytes :=
  (List.range 16).map (fun i => hexDigit ((val.toNat >>> (4 * (15 - i))) % 16))

/-- `sip_dialog_alloc`, with the random values it draws. -/
def sipDialogAlloc (ltag callid : UInt64) (lseq : UInt16) : Dialog :=
  { outgoing := true, callid := x64Strdup callid, ltag := x64Strdup ltag, rtag := none,
    lseq := lseq.toUInt32 }

/-- `pl_strdup`. A copy as a C string ends where the text has a zero byte. -/
def plStrdup (pl : Bytes) : Bytes := pl.takeWhile (· ≠ 0)

/-- `sip_dialog_accept`, with the tag the stack has given to the message and
    the random value it draws. -/
def sipDialogAccept (msg : SipMsg) (tag : UInt64) (lseq : UInt16) : Dialog :=
  { outgoing := false, callid := plStrdup msg.callid, ltag := x64Strdup tag,
    rtag := some (plStrdup msg.fromTag), lseq := lseq.toUInt32 }

/-- `sip_dialog_create` with the remote tag of an answer. -/
def sipDialogCreate (d : Dialog) (tag : Bytes) : Dialog :=
  match d.rtag with
  | some _ => d
  | none => { d with rtag := some (plStrdup tag) }

/-- `sip_dialog_encode`, with the dialog as it leaves it. -/
def sipDialogEncode (d : Dialog) (cseq : UInt32) (met : Method) : Dialog × Request :=
  if met ≠ .ack then
    ({ d with lseq := d.lseq + 1 }, { met := met, callid := d.callid, cseq := d.lseq })
  else (d, { met := met, callid := d.callid, cseq := cseq })

/-- The tag of the side that receives the message, as `sip_dialog_cmp` takes
    it. -/
def localTag (msg : SipMsg) : Bytes := if msg.req then msg.toTag else msg.fromTag

/-- The tag of the side that sends it. -/
def remoteTag (msg : SipMsg) : Bytes := if msg.req then msg.fromTag else msg.toTag

/-- `sip_dialog_cmp`. A dialog without a remote tag matches no message. -/
def sipDialogCmp (d : Dialog) (msg : SipMsg) : Bool :=
  if msg.callid ≠ d.callid then false
  else if localTag msg ≠ d.ltag then false
  else match d.rtag with
    | none => false
    | some rtag => if remoteTag msg ≠ rtag then false else true

/-! ## The socket -/

/-- The record of an acknowledgement. -/
@[ext]
structure Ack where
  dlg : Nat
  cseq : UInt32
deriving DecidableEq

/-- `bsize` is the number of buckets of the table, a power of two. -/
structure SessSock where
  bsize : UInt32
  dialogs : List Dialog
  htAck : Buckets UInt32 Ack
  out : List Request

/-- The bucket of a hash value. -/
def slotOf (s : SessSock) (key : UInt32) : UInt32 := key &&& (s.bsize - 1)

/-- `sip_drequestf` in the dialog of that number. `err` is what `sip_request`
    returns. -/
def sipDrequestf (s : SessSock) (dlg : Nat) (cseq : UInt32) (met : Method) (err : Nat) :
    SessSock × Nat :=
  match s.dialogs[dlg]? with
  | none => (s, einval)
  | some d =>
      let r := sipDialogEncode d cseq met
      ({ s with
        dialogs := s.dialogs.set dlg r.1,
        out := if err = 0 then s.out ++ [r.2] else s.out }, err)

def sipsessSendAck (s : SessSock) (a : Ack) (err : Nat) : SessSock × Nat :=
  sipDrequestf s a.dlg a.cseq .ack err

/-- `sipsess_ack`. The record is filed before the request is sent, and stays
    there if that fails. -/
def sipsessAck (s : SessSock) (dlg : Nat) (cseq : UInt32) (err : Nat) : SessSock × Nat :=
  match s.dialogs[dlg]? with
  | none => (s, einval)
  | some d =>
      let a : Ack := { dlg := dlg, cseq := cseq }
      sipsessSendAck
        { s with htAck := s.htAck.append (slotOf s (hashJoaatStr d.callid)) a } a err

/-- `cmp_handler`. -/
def cmpHandler (s : SessSock) (msg : SipMsg) (a : Ack) : Bool :=
  match s.dialogs[a.dlg]? with
  | none => false
  | some d =>
      if !sipDialogCmp d msg then false
      else if a.cseq ≠ msg.cseqNum then false
      else true

/-- `sipsess_ack_again`. -/
def sipsessAckAgain (s : SessSock) (msg : SipMsg) (err : Nat) : SessSock × Nat :=
  match s.htAck.lookup (slotOf s (hashJoaat msg.callid)) (cmpHandler s msg) with
  | none => (s, enoent)
  | some a => sipsessSendAck s a err

/-- `response_handler`: a response that belongs to no transaction. -/
def responseHandler (s : SessSock) (msg : SipMsg) (err : Nat) : SessSock × Bool :=
  if msg.cseqMet ≠ .invite then (s, false)
  else if msg.scode < 200 ∨ msg.scode > 299 then (s, false)
  else ((sipsessAckAgain s msg err).1, true)

/-- The timer of a record expires, and the record is unlinked. -/
def tmrHandler (s : SessSock) (a : Ack) : SessSock := { s with htAck := s.htAck.unlink a }

/-- What can happen on a socket: a dialog is made for an outgoing or for an
    incoming call, it gets the remote tag from an answer, a request other than
    ACK is made in it, its INVITE is acknowledged, the timer of a record
    expires, and a response comes that belongs to no transaction. -/
inductive AckEvent where
  | alloc (ltag callid : UInt64) (lseq : UInt16)
  | accept (msg : SipMsg) (tag : UInt64) (lseq : UInt16)
  | create (dlg : Nat) (tag : Bytes)
  | request (dlg : Nat) (met : Method) (err : Nat)
  | ack (dlg : Nat) (cseq : UInt32) (err : Nat)
  | expire (dlg : Nat) (cseq : UInt32)
  | response (msg : SipMsg) (err : Nat)
deriving DecidableEq

/-- One event. `invite_resp_handler` acknowledges in the dialog of the outgoing
    call that it belongs to. -/
def ackStep (s : SessSock) : AckEvent → Option SessSock
  | .alloc ltag callid lseq => some { s with dialogs := s.dialogs ++ [sipDialogAlloc ltag callid lseq] }
  | .accept msg tag lseq =>
      if msg.req then some { s with dialogs := s.dialogs ++ [sipDialogAccept msg tag lseq] }
      else none
  | .create dlg tag => match s.dialogs[dlg]? with
    | none => none
    | some d => some { s with dialogs := s.dialogs.set dlg (sipDialogCreate d tag) }
  | .request dlg met err =>
      if met ≠ .ack ∧ dlg < s.dialogs.length then some (sipDrequestf s dlg 0 met err).1 else none
  | .ack dlg cseq err => match s.dialogs[dlg]? with
    | none => none
    | some d => if d.outgoing then some (sipsessAck s dlg cseq err).1 else none
  | .expire dlg cseq => match s.dialogs[dlg]? with
    | none => none
    | some d =>
        -- The timer is part of the record.
        if ⟨dlg, cseq⟩ ∈ s.htAck.bucket (slotOf s (hashJoaatStr d.callid)) then
          some (tmrHandler s ⟨dlg, cseq⟩)
        else none
  | .response msg err => some (responseHandler s msg err).1

/-- `sipsess_listen`: no dialogs and an empty table. -/
def sipsessListen (htsize : UInt32) : SessSock :=
  { bsize := htsize, dialogs := [], htAck := Buckets.empty, out := [] }

end AckStore

end SipPerf
