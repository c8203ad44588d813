import Mathlib.Data.Finset.Basic
import PenguinSync.Protocol.Pairing

/-!
# The trust store and the check TLS makes
-/

namespace PenguinSync

structure Crypto where
  sha256 : List UInt8 → DeviceId
  blake3 : List UInt8 → Bytes 32

structure TrustStore where
  paired : Finset DeviceId
  pairingDeadline : Option Time

namespace TrustStore

def new (ids : List DeviceId) : TrustStore := ⟨ids.toFinset, none⟩

def isPaired (t : TrustStore) (id : DeviceId) : Bool := id ∈ t.paired

def pin (t : TrustStore) (id : DeviceId) : TrustStore := { t with paired := insert id t.paired }

def unpair (t : TrustStore) (id : DeviceId) : TrustStore := { t with paired := t.paired.erase id }

def openPairingWindow (t : TrustStore) (deadline : Time) : TrustStore := { t with pairingDeadline := some deadline }

def closePairingWindow (t : TrustStore) : TrustStore := { t with pairingDeadline := none }

def pairingOpen (t : TrustStore) (now : Time) : Bool :=
  match t.pairingDeadline with
  | some deadline => now < deadline
  | none => false

/-- `PinningVerifier::check` on a certificate with this SubjectPublicKeyInfo. -/
def check (c : Crypto) (t : TrustStore) (spki : List UInt8) (now : Time) : Bool :=
  t.isPaired (c.sha256 spki) || t.pairingOpen now

end TrustStore

end PenguinSync
