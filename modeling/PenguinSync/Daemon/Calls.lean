import PenguinSync.Daemon.Turns

/-!
# The calls in flight

How the D-Bus calls move on, and what each observation of theirs was a step of.
-/

namespace PenguinSync

namespace Daemon

section
variable {cfg : Config} {s s' : Daemon} {a : Act} {os : List Obs}

def Obs.unpairing : Obs → Bool
  | .unpinned .. | .removed .. | .saved .. | .unpaired .. => true
  | _ => false

inductive UnpairMove (s s' : Daemon) (k : Nat) (ok : Bool) : List Obs → Prop
  | unpin (call : Nat) (id : DeviceId) : s.unpairs[k]? = some ⟨call, id, .unpin⟩ →
      s' = { s with trust := s.trust.unpair id, unpairs := s.unpairs.set k ⟨call, id, .remove⟩ } →
      UnpairMove s s' k ok [.unpinned call id]
  | remove (call : Nat) (id : DeviceId) : s.unpairs[k]? = some ⟨call, id, .remove⟩ →
      s' = { s with state := s.state.remove id, unpairs := s.unpairs.set k ⟨call, id, .persist⟩ } →
      UnpairMove s s' k ok [.removed call id]
  | persist (call : Nat) (id : DeviceId) : s.unpairs[k]? = some ⟨call, id, .persist⟩ →
      s' = { s with
        file := if ok then some s.state else s.file
        unpairs := s.unpairs.set k ⟨call, id, .removeObject⟩ } → UnpairMove s s' k ok [.saved call id ok]
  | removeObject (call : Nat) (id : DeviceId) : s.unpairs[k]? = some ⟨call, id, .removeObject⟩ →
      s' = { s with objects := s.objects.erase id, unpairs := s.unpairs.eraseIdx k } →
      UnpairMove s s' k ok [.unpaired call id]

theorem unpairStep_move {k : Nat} {ok : Bool} (h : s.unpairStep k ok = some (s', os)) : UnpairMove s s' k ok os := by
  unfold unpairStep at h
  split at h
  · cases h
  · rename_i call id hk
    cases h
    exact .unpin call id hk rfl
  · rename_i call id hk
    cases h
    exact .remove call id hk rfl
  · rename_i call id hk
    cases h
    exact .persist call id hk (by rw [persistState_eq])
  · rename_i call id hk
    cases h
    exact .removeObject call id hk rfl

theorem UnpairMove.orchestrator {k : Nat} {ok : Bool} (h : UnpairMove s s' k ok os) :
    s'.orchestrator = s.orchestrator := by
  cases h with
  | unpin _ _ _ hs => rw [hs]
  | remove _ _ _ hs => rw [hs]
  | persist _ _ _ hs => rw [hs]
  | removeObject _ _ _ hs => rw [hs]

theorem step_unpair {o : Obs} (h : step cfg s a = some (s', os)) (ho : o ∈ os) (hu : Obs.unpairing o = true) :
    ∃ k ok, a = .unpairStep k ok ∧ UnpairMove s s' k ok os := by
  unfold Obs.unpairing at hu
  cases ha : a.task with
  | net =>
    obtain ⟨i, x, rfl⟩ := (net_frame h ha).2 _ ho
    cases hu
  | clipboard =>
    have := (clipboard_frame h ha).2.2 _ ho
    split at hu <;> first | cases this | cases hu
  | orchestrator =>
    cases a with
    | orchestrate ok target =>
      cases orchestrate_turn h with
      | taken i e rest _ _ hd =>
        have := (dispatch_frame hd).2 _ ho
        split at hu <;> first | cases this | cases hu
      | handshake hh pc _ hs =>
        have := (handshakeStep_frame hs).2 _ ho
        split at hu <;> first | cases this | cases hu
      | received r pc _ hs =>
        have := (receivedStep_frame hs).2.2 _ ho
        split at hu <;> first | cases this | cases hu
      | closed id pc _ _ => simp at ho
    | _ => cases ha
  | bus =>
    cases a with
    | unpairStep k ok => exact ⟨k, ok, rfl, unpairStep_move h⟩
    | startPairing random =>
      cases h
      simp at ho
    | openWindow k =>
      simp only [step, openWindow] at h
      split at h <;> (cases h; try simp at ho)
    | setToken k addrs =>
      simp only [step, setToken] at h
      split at h
      · cases h
        simp only [List.mem_cons, List.not_mem_nil, or_false] at ho
        rcases ho with rfl | rfl <;> cases hu
      · cases h
    | confirmPairing deviceId accept =>
      simp only [step, confirmPairing] at h
      split at h
      · cases h
        rw [List.mem_singleton.mp ho] at hu
        cases hu
      · split at h <;> (cases h; rw [List.mem_singleton.mp ho] at hu; cases hu)
    | unpair deviceId =>
      simp only [step, unpair] at h
      split at h <;> (cases h; rw [List.mem_singleton.mp ho] at hu; cases hu)
    | restore =>
      rw [(restore_frame h).2] at ho
      cases ho
    | _ => cases ha

theorem unpinned_step {call : Nat} {d : DeviceId} (h : step cfg s a = some (s', os)) (ho : .unpinned call d ∈ os) :
    ∃ k ok, a = .unpairStep k ok ∧ s.unpairs[k]? = some ⟨call, d, .unpin⟩ := by
  obtain ⟨k, ok, rfl, hm⟩ := step_unpair h ho rfl
  cases hm with
  | unpin call' id hk _ =>
    simp only [List.mem_singleton, Obs.unpinned.injEq] at ho
    obtain ⟨rfl, rfl⟩ := ho
    exact ⟨k, ok, rfl, hk⟩
  | _ => simp at ho

theorem unpaired_step {call : Nat} {d : DeviceId} (h : step cfg s a = some (s', os)) (ho : .unpaired call d ∈ os) :
    ∃ k ok, a = .unpairStep k ok ∧ s.unpairs[k]? = some ⟨call, d, .removeObject⟩ ∧
      s' = { s with objects := s.objects.erase d, unpairs := s.unpairs.eraseIdx k } := by
  obtain ⟨k, ok, rfl, hm⟩ := step_unpair h ho rfl
  cases hm with
  | removeObject call' id hk hs =>
    simp only [List.mem_singleton, Obs.unpaired.injEq] at ho
    obtain ⟨rfl, rfl⟩ := ho
    exact ⟨k, ok, rfl, hk, hs⟩
  | _ => simp at ho

theorem confirmed_step {d : DeviceId} {accept : Bool} (h : step cfg s a = some (s', os)) (ho : .confirmed d accept ∈ os) :
    ∃ hex, a = .confirmPairing hex accept ∧ fromHex hex = some d := by
  cases ha : a.task with
  | net =>
    obtain ⟨i, x, hx⟩ := (net_frame h ha).2 _ ho
    cases hx
  | clipboard => cases (clipboard_frame h ha).2.2 _ ho
  | orchestrator =>
    cases a with
    | orchestrate ok target =>
      cases orchestrate_turn h with
      | taken j e rest _ _ hd => cases (dispatch_frame hd).2 _ ho
      | handshake hh pc _ hs => cases (handshakeStep_frame hs).2 _ ho
      | received r pc _ hr => cases (receivedStep_frame hr).2.2 _ ho
      | closed id pc _ hc => simp at ho
    | _ => cases ha
  | bus =>
    cases a with
    | confirmPairing hex accept' =>
      simp only [step, confirmPairing] at h
      split at h
      · cases h
        simp at ho
      · rename_i id hid
        split at h
        all_goals
          cases h
          simp only [List.mem_singleton, Obs.confirmed.injEq] at ho
          obtain ⟨rfl, rfl⟩ := ho
          exact ⟨hex, rfl, hid⟩
    | startPairing random =>
      cases h
      simp at ho
    | openWindow k =>
      simp only [step, openWindow] at h
      split at h <;> (cases h; try simp at ho)
    | setToken k addrs =>
      simp only [step, setToken] at h
      split at h <;> (cases h; try simp at ho)
    | unpair deviceId =>
      simp only [step, unpair] at h
      split at h <;> (cases h; simp at ho)
    | unpairStep k ok => cases unpairStep_move h <;> simp at ho
    | restore =>
      rw [(restore_frame h).2] at ho
      cases ho
    | _ => cases ha

theorem signal_step {hex fp name : String} (h : step cfg s a = some (s', os)) (ho : .pairingRequested hex fp name ∈ os) :
    ∃ hh, s.orchestrator = .handshake hh .pairingRequested := by
  obtain ⟨ok, target, rfl, ht⟩ := step_turn h ho (by simp) rfl rfl
  obtain ⟨hh, pc, hor, hs⟩ := ht.of_handshaking ho rfl
  cases handshakeStep_move hs with
  | asks => exact ⟨hh, hor⟩
  | _ => simp at ho

/-- A call in flight was so before, has just been made or has taken a step. -/
inductive CallMove (s s' : Daemon) (a : Act) (os : List Obs) (u : UnpairCall) : Prop
  | kept : u ∈ s.unpairs → CallMove s s' a os u
  | made : u.call = s.nextCall → u.pc = .unpin → os = [.unpairCalled u.call u.id] → CallMove s s' a os u
  | unpinned (k : Nat) (ok : Bool) : a = .unpairStep k ok → s.unpairs[k]? = some ⟨u.call, u.id, .unpin⟩ →
      u.pc = .remove → s'.trust = s.trust.unpair u.id → os = [.unpinned u.call u.id] → CallMove s s' a os u
  | removed (k : Nat) (ok : Bool) : a = .unpairStep k ok → s.unpairs[k]? = some ⟨u.call, u.id, .remove⟩ →
      u.pc = .persist → s'.state = s.state.remove u.id → os = [.removed u.call u.id] → CallMove s s' a os u
  | saved (k : Nat) (ok : Bool) : a = .unpairStep k ok → s.unpairs[k]? = some ⟨u.call, u.id, .persist⟩ →
      u.pc = .removeObject → s'.file = (if ok then some s.state else s.file) → os = [.saved u.call u.id ok] →
      CallMove s s' a os u

theorem unpairs_step {u : UnpairCall} (h : step cfg s a = some (s', os)) (hu : u ∈ s'.unpairs) :
    CallMove s s' a os u := by
  by_cases ha : ∃ k ok, a = .unpairStep k ok
  · obtain ⟨k, ok, rfl⟩ := ha
    cases unpairStep_move h with
    | unpin call id hk hs =>
      subst hs
      rcases List.mem_or_eq_of_mem_set hu with hu | rfl
      · exact .kept hu
      · exact .unpinned k ok rfl hk rfl rfl rfl
    | remove call id hk hs =>
      subst hs
      rcases List.mem_or_eq_of_mem_set hu with hu | rfl
      · exact .kept hu
      · exact .removed k ok rfl hk rfl rfl rfl
    | persist call id hk hs =>
      subst hs
      rcases List.mem_or_eq_of_mem_set hu with hu | rfl
      · exact .kept hu
      · exact .saved k ok rfl hk rfl rfl rfl
    | removeObject call id hk hs =>
      subst hs
      exact .kept (List.mem_of_mem_eraseIdx hu)
  · cases step_pairing h with
    | other hs _ _ =>
      rw [hs.unpairs] at hu
      exact .kept hu
    | tokenSet _ _ _ _ _ hs =>
      subst hs
      exact .kept hu
    | unknown _ _ _ hs =>
      subst hs
      exact .kept hu
    | answered _ _ _ _ hs =>
      subst hs
      exact .kept hu
    | unpairCalled id hs =>
      subst hs
      rcases List.mem_append.mp hu with hu | hu
      · exact .kept hu
      · rw [List.mem_singleton] at hu
        subst hu
        exact .made rfl rfl rfl
    | unpairStep k ok hs =>
      have hm := unpairStep_move hs
      have : ∃ o ∈ os, Obs.unpairing o = true := by
        cases hm <;> exact ⟨_, List.mem_singleton_self _, rfl⟩
      obtain ⟨o, ho, hob⟩ := this
      obtain ⟨k', ok', hk', -⟩ := step_unpair h ho hob
      exact absurd ⟨k', ok', hk'⟩ ha
    | handshake hh pc ok ho hs =>
      obtain ⟨⟨_, _, _, _, _, _, _, _, _, rfl, -⟩, -⟩ := handshakeStep_frame hs
      exact .kept hu

end

end Daemon

end PenguinSync
