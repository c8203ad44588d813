import PenguinSync.Protocol.Message

/-!
# Pairing tokens and the QR payload

Instants and durations are counted in nanoseconds. `duration_since` is zero
when the other instant is later, as subtraction on `Nat` is.
-/

namespace PenguinSync

abbrev Time := Nat

def secs (n : Nat) : Time := n * 10 ^ 9

def tokenTtl : Time := secs 60

structure PairingToken where
  bytes : TokenBytes
  issuedAt : Time
  redeemed : Bool
  deriving DecidableEq

inductive RedeemError where
  | mismatch
  | alreadyRedeemed
  | expired
  deriving DecidableEq

namespace PairingToken

def issue (random : TokenBytes) (now : Time) : PairingToken := ⟨random, now, false⟩

def isExpired (t : PairingToken) (now : Time) : Bool := tokenTtl ≤ now - t.issuedAt

/-- On success the token is marked used. -/
def redeem (t : PairingToken) (presented : TokenBytes) (now : Time) : Except RedeemError PairingToken :=
  if t.redeemed then .error .alreadyRedeemed
  else if t.isExpired now then .error .expired
  else if presented ≠ t.bytes then .error .mismatch
  else .ok { t with redeemed := true }

theorem redeem_ok {t t' : PairingToken} {presented : TokenBytes} {now : Time}
    (h : t.redeem presented now = .ok t') :
    t.redeemed = false ∧ t.isExpired now = false ∧ presented = t.bytes ∧ t' = { t with redeemed := true } := by
  unfold redeem at h
  by_cases hr : t.redeemed = true
  · simp [hr] at h
  · by_cases he : t.isExpired now = true
    · simp [hr, he] at h
    · by_cases hp : presented = t.bytes
      · simp [hr, he, hp] at h
        exact ⟨by simpa using hr, by simpa using he, hp, h.symm⟩
      · simp [hr, he, hp] at h

end PairingToken

/-! ## The QR payload -/

inductive SocketAddr where
  | v4 (ip : Bytes 4) (port : UInt16)
  | v6 (ip : Bytes 16) (port : UInt16) (flowinfo : UInt32) (scopeId : UInt32)
  deriving DecidableEq

structure QrPayload where
  version : UInt16
  deviceId : DeviceId
  name : String
  addrs : List SocketAddr
  token : TokenBytes
  deriving DecidableEq

end PenguinSync
