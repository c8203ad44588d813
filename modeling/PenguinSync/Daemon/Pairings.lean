import PenguinSync.Daemon.Frames

/-!
# Pairings

What a step does to the window, the token, the prompts, and to the paired set.
-/

namespace PenguinSync

namespace Daemon

/-! ## What a step does to the pairings -/

def Obs.pairing : Obs → Bool
  | .tokenSet .. | .redeemed .. | .confirmed .. | .pinned _ | .unpairCalled .. | .unpinned .. | .removed ..
  | .saved .. | .unpaired .. => true
  | _ => false

theorem Obs.pairing_of_local {o : Obs} (h : Obs.local o = true) : Obs.pairing o = false := by
  cases o <;> first | rfl | cases h

theorem Obs.pairing_of_receiving {o : Obs} (h : Obs.receiving o = true) : Obs.pairing o = false := by
  cases o <;> first | rfl | cases h

def early : Orchestrator → Prop
  | .handshake _ .isPaired => True
  | .handshake _ _ => False
  | _ => True

structure SamePairings (s s' : Daemon) : Prop where
  paired : s'.trust.paired = s.trust.paired
  state : s'.state = s.state
  file : s'.file = s.file
  currentToken : s'.currentToken = s.currentToken
  pendingConfirmations : s'.pendingConfirmations = s.pendingConfirmations
  nextChannel : s'.nextChannel = s.nextChannel
  unpairs : s'.unpairs = s.unpairs
  nextCall : s'.nextCall = s.nextCall

inductive PairingMove (s s' : Daemon) : List Obs → Prop
  | other {os : List Obs} : SamePairings s s' → s'.orchestrator = s.orchestrator ∨ early s'.orchestrator →
      (∀ o ∈ os, Obs.pairing o = false) → PairingMove s s' os
  | tokenSet (random : TokenBytes) (at_ : Time) (rest : List StartPairingCall) (qr : QrPayload) (fp : String) :
      s' = { s with currentToken := some (.issue random at_), startPairings := rest } →
      PairingMove s s' [.tokenSet random at_, .startedPairing qr fp]
  | unknown (id : DeviceId) (accept : Bool) : s.pendingConfirmations.lookup id = none → s' = s →
      PairingMove s s' [.confirmed id accept]
  | answered (id : DeviceId) (accept : Bool) (channel : Nat) : s.pendingConfirmations.lookup id = some channel →
      s' = { s with
        pendingConfirmations := s.pendingConfirmations.erase id
        orchestrator := answer channel accept s.orchestrator } → PairingMove s s' [.confirmed id accept]
  | unpairCalled (id : DeviceId) :
      s' = { s with unpairs := s.unpairs ++ [⟨s.nextCall, id, .unpin⟩], nextCall := s.nextCall + 1 } →
      PairingMove s s' [.unpairCalled s.nextCall id]
  | unpairStep {os : List Obs} (k : Nat) (ok : Bool) : s.unpairStep k ok = some (s', os) → PairingMove s s' os
  | handshake {os : List Obs} (h : Handling) (pc : HandshakePc) (ok : Bool) : s.orchestrator = .handshake h pc →
      s.handshakeStep h ok pc = some (s', os) → PairingMove s s' os

section
variable {cfg : Config} {s s' : Daemon} {a : Act} {os : List Obs}

theorem dispatch_other {i : Nat} {e : ListenerEvent} {rest : List (Nat × ListenerEvent)}
    (h : ({ s with queue := rest } : Daemon).dispatch i e = (s', os)) :
    PairingMove s s' os := by
  have hsame : ∀ rd rh q o, SamePairings s
      { s with remoteToDevice := rd, remoteHandles := rh, queue := q, orchestrator := o } :=
    fun _ _ _ _ => ⟨rfl, rfl, rfl, rfl, rfl, rfl, rfl, rfl⟩
  cases e with
  | connected remote handle =>
    cases h
    exact .other (hsame _ _ _ _) (Or.inl rfl) (by simp)
  | session remote ev =>
    cases ev with
    | peerHandshake deviceId name caps token =>
      cases h
      exact .other (hsame _ _ _ _) (Or.inr trivial) (by simp [Obs.pairing])
    | ponged rtt =>
      cases h
      exact .other (hsame _ _ _ _) (Or.inl rfl) (by simp)
    | clipboardReceived clip =>
      simp only [dispatch] at h
      split at h
      · cases h
        exact .other (hsame _ _ _ _) (Or.inr trivial) (by simp)
      · cases h
        exact .other (hsame _ _ _ _) (Or.inl rfl) (by simp)
    | closed reason =>
      cases h
      refine .other (hsame _ _ _ _) (Or.inr ?_) (by simp [Obs.pairing])
      simp only
      split <;> trivial

theorem step_pairing (h : step cfg s a = some (s', os)) : PairingMove s s' os := by
  cases ha : a.task with
  | net =>
    obtain ⟨⟨_, _, _, rfl⟩, ho⟩ := net_frame h ha
    refine .other ⟨rfl, rfl, rfl, rfl, rfl, rfl, rfl, rfl⟩ (Or.inl rfl) (fun o hm => ?_)
    obtain ⟨i, x, rfl⟩ := ho o hm
    rfl
  | clipboard =>
    obtain ⟨⟨_, _, _, _, _, _, rfl⟩, -, ho⟩ := clipboard_frame h ha
    exact .other ⟨rfl, rfl, rfl, rfl, rfl, rfl, rfl, rfl⟩ (Or.inl rfl) (fun o hm => Obs.pairing_of_local (ho o hm))
  | bus =>
    cases a with
    | startPairing random =>
      cases h
      exact .other ⟨rfl, rfl, rfl, rfl, rfl, rfl, rfl, rfl⟩ (Or.inl rfl) (by simp)
    | openWindow k =>
      simp only [step, openWindow] at h
      split at h
      · cases h
        exact .other ⟨rfl, rfl, rfl, rfl, rfl, rfl, rfl, rfl⟩ (Or.inl rfl) (by simp)
      · cases h
    | setToken k addrs =>
      simp only [step, setToken] at h
      split at h
      · cases h
        exact .tokenSet _ _ _ _ _ rfl
      · cases h
    | confirmPairing deviceId accept =>
      simp only [step, confirmPairing] at h
      split at h
      · cases h
        exact .other ⟨rfl, rfl, rfl, rfl, rfl, rfl, rfl, rfl⟩ (Or.inl rfl) (by simp [Obs.pairing])
      · split at h
        · rename_i hl
          cases h
          exact .unknown _ _ hl rfl
        · rename_i hl
          cases h
          exact .answered _ _ _ hl rfl
    | unpair deviceId =>
      simp only [step, unpair] at h
      split at h
      · cases h
        exact .other ⟨rfl, rfl, rfl, rfl, rfl, rfl, rfl, rfl⟩ (Or.inl rfl) (by simp [Obs.pairing])
      · cases h
        exact .unpairCalled _ rfl
    | unpairStep k ok => exact .unpairStep k ok h
    | restore =>
      obtain ⟨⟨_, _, rfl⟩, rfl⟩ := restore_frame h
      exact .other ⟨rfl, rfl, rfl, rfl, rfl, rfl, rfl, rfl⟩ (Or.inl rfl) (by simp)
    | _ => cases ha
  | orchestrator =>
    cases a with
    | orchestrate ok target =>
      cases orchestrate_turn h with
      | taken i e rest _ _ hd => exact dispatch_other hd
      | handshake hh pc ho hs => exact .handshake hh pc ok ho hs
      | received r pc _ hr =>
        obtain ⟨⟨_, _, _, _, _, rfl, hor⟩, -, ho⟩ := receivedStep_frame hr
        refine .other ⟨rfl, rfl, rfl, rfl, rfl, rfl, rfl, rfl⟩ (Or.inr ?_)
          (fun o hm => Obs.pairing_of_receiving (ho o hm))
        rcases hor with rfl | ⟨_, rfl⟩ <;> trivial
      | closed id pc _ hc =>
        subst hc
        cases pc with
        | disconnect => exact .other ⟨rfl, rfl, rfl, rfl, rfl, rfl, rfl, rfl⟩ (Or.inr trivial) (by simp)
        | setConnected => exact .other ⟨rfl, rfl, rfl, rfl, rfl, rfl, rfl, rfl⟩ (Or.inr trivial) (by simp)
    | _ => cases ha

end

/-! ## The paired set -/

def Obs.unpins (id : DeviceId) : Obs → Prop
  | .unpinned _ id' => id' = id
  | _ => False

inductive PairedMove (s s' : Daemon) : List Obs → Prop
  | same {os : List Obs} : s'.trust.paired = s.trust.paired → (∀ d, .pinned d ∉ os) →
      (∀ d, ∀ o ∈ os, ¬ Obs.unpins d o) → PairedMove s s' os
  | pinned (h : Handling) : s.orchestrator = .handshake h .pin →
      s'.trust.paired = insert h.deviceId s.trust.paired → PairedMove s s' [.pinned h.deviceId]
  | unpinned (k call : Nat) (id : DeviceId) : s.unpairs[k]? = some ⟨call, id, .unpin⟩ →
      s'.trust.paired = s.trust.paired.erase id → PairedMove s s' [.unpinned call id]

section
variable {cfg : Config} {s s' : Daemon} {a : Act} {os : List Obs}

theorem handshakeStep_paired {h : Handling} {pc : HandshakePc} {ok : Bool}
    (hs : s.handshakeStep h ok pc = some (s', os)) (hpc : pc ≠ .pin) :
    s'.trust.paired = s.trust.paired ∧ (∀ d, .pinned d ∉ os) ∧ ∀ d, ∀ o ∈ os, ¬ Obs.unpins d o := by
  cases pc with
  | isPaired =>
    simp only [handshakeStep] at hs
    split at hs
    · cases hs; exact ⟨rfl, by simp, by simp⟩
    · split at hs <;> (cases hs; exact ⟨rfl, by simp, by simp⟩)
  | redeem presented =>
    simp only [handshakeStep] at hs
    split at hs
    · cases hs; exact ⟨rfl, by simp, by simp⟩
    · split at hs <;> (cases hs; exact ⟨rfl, by simp, by simp [Obs.unpins]⟩)
  | awaiting ch deadline ans =>
    cases ans with
    | none =>
      simp only [handshakeStep, Option.ite_none_right_eq_some] at hs
      obtain ⟨-, hs⟩ := hs
      cases hs
      exact ⟨rfl, by simp, by simp⟩
    | some accept => cases accept <;> (cases hs; exact ⟨rfl, by simp, by simp⟩)
  | pin => exact absurd rfl hpc
  | persist =>
    cases hs
    exact ⟨by cases ok <;> rfl, by simp, by simp⟩
  | promote =>
    simp only [handshakeStep] at hs
    split at hs <;> (cases hs; exact ⟨rfl, by simp, by simp [Obs.unpins]⟩)
  | _ =>
    cases hs
    exact ⟨rfl, by simp, by simp [Obs.unpins]⟩

theorem step_paired (h : step cfg s a = some (s', os)) : PairedMove s s' os := by
  cases step_pairing h with
  | other hs _ hos =>
    refine .same hs.paired (fun d hd => by cases hos _ hd) (fun d o ho hu => ?_)
    have := hos o ho
    cases o <;> first | exact hu | cases this
  | tokenSet _ _ _ _ _ hs => subst hs; exact .same rfl (by simp) (by simp [Obs.unpins])
  | unknown _ _ _ hs => subst hs; exact .same rfl (by simp) (by simp [Obs.unpins])
  | answered _ _ _ _ hs => subst hs; exact .same rfl (by simp) (by simp [Obs.unpins])
  | unpairCalled _ hs => subst hs; exact .same rfl (by simp) (by simp [Obs.unpins])
  | unpairStep k ok hs =>
    unfold unpairStep at hs
    split at hs
    · cases hs
    · rename_i call id hk
      cases hs
      exact .unpinned k call id hk rfl
    · cases hs; exact .same rfl (by simp) (by simp [Obs.unpins])
    · cases hs; exact .same (by cases ok <;> rfl) (by simp) (by simp [Obs.unpins])
    · cases hs; exact .same rfl (by simp) (by simp [Obs.unpins])
  | handshake hh pc ok ho hs =>
    by_cases hpc : pc = .pin
    · subst hpc
      cases hs
      exact .pinned hh ho rfl
    · obtain ⟨hp, hpin, hun⟩ := handshakeStep_paired hs hpc
      exact .same hp hpin hun

end

end Daemon

end PenguinSync
