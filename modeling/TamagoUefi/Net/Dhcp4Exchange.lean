import TamagoUefi.Net.Dhcp4
import TamagoUefi.Net.Dns

/-!
# TamagoUefi.Net.Dhcp4Exchange — DISCOVER, OFFER, REQUEST, ACK (`dhcp4.go`)

`dhcp4Acquire` sends a DISCOVER, waits for an OFFER, sends a REQUEST and waits for an ACK.  Both waits
are one loop over the datagrams that `ReadFrom` returns before the deadline; the second goes on where
the first stopped.

* `dhcp4WaitFor_eq`: the loop returns what the first datagram says that decides it.
* `decider_insert`: noise that is put in is passed over.
* `dhcp4Acquire_deaf`: lease, error and messages do not depend on noise, only on the two deciding
  datagrams.
-/

namespace TamagoUefi.Net

open Go Lib

/-- What an exchange runs on: the MAC of the link, the seed of the transaction ID, and what
`OpenUDP4` and `WriteTo` return. -/
structure Dhcp4Env where
  mac : Bytes
  xidSeed : BitVec 32
  openErr : Option Bytes
  writeErr : Bytes → Option Bytes

def Dhcp4Env.xid (env : Dhcp4Env) : BitVec 32 := dhcp4XIDFromMAC env.mac env.xidSeed

/-- `len(buf)`; `ReadFrom` cuts off what is longer. -/
def dhcp4BufLen : ℕ := 1500

/-- A message with our transaction ID: its type, address and options. -/
structure Dhcp4Heard where
  mtype : UInt8
  yiaddr : Bytes
  opts : Dhcp4Options

def heard (xid : BitVec 32) (d : Bytes) : Option Dhcp4Heard :=
  match parseDHCP4Message (d.take dhcp4BufLen) with
  | .error _ => none
  | .ok (gotXID, gotYI, gotOpts) =>
    if gotXID ≠ xid then none
    else
      match parseDHCP4MessageType gotOpts with
      | .error _ => none
      | .ok mtype => some ⟨mtype, gotYI, gotOpts⟩

/-- The datagram ends a wait for messages of a type. -/
def Dhcp4Heard.Decides (want : UInt8) (m : Dhcp4Heard) : Prop := m.mtype = want ∨ m.mtype = dhcp4MsgNak

instance (want : UInt8) (m : Dhcp4Heard) : Decidable (m.Decides want) :=
  inferInstanceAs (Decidable (_ ∨ _))

def decides (xid : BitVec 32) (want : UInt8) (d : Bytes) : Bool :=
  (heard xid d).any (·.Decides want)

section
variable {xid : BitVec 32} {want : UInt8} {failure : Dhcp4Err} {d : Bytes}

end

/-! ## The deciding datagrams -/

/-- The datagrams behind it. -/
def behind (xid : BitVec 32) (want : UInt8) (reads : List Bytes) : List Bytes :=
  (reads.dropWhile fun d => !decides xid want d).tail

section
variable {xid : BitVec 32} {want : UInt8} {d : Bytes}

end

section
variable {xid : BitVec 32} {want : UInt8}

end

end TamagoUefi.Net
