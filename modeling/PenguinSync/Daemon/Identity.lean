import PenguinSync.Daemon.Reach

/-!
# Whose id a session goes by

TLS knows a session's key, the orchestrator knows the id its handshake claims
and the address it comes from. The two agree only as long as every handshake
claims the hash of its own key and no address serves two keys.
-/

namespace PenguinSync

open Lts

namespace Daemon

def keys (s : Daemon) : List (List UInt8) := s.connections.map (·.spki)

/-- The id that TLS knows session `i` by. -/
def identity (cfg : Config) (s : Daemon) (i : Nat) : Option DeviceId := s.keys[i]?.map cfg.crypto.sha256

def Obs.records (d : DeviceId) : Obs → Option Nat
  | .recorded i id => if id = d then some i else none
  | _ => none

def claimants (d : DeviceId) (tr : List Obs) : List Nat := tr.filterMap (Obs.records d)

/-- A handshake claims its own key's hash, the handle it is promoted with and
the entry a clip is attributed by come from sessions with the key of its own,
and nobody is unpinned whom a clip may still be sent to. -/
def genuine (cfg : Config) (tr : List Obs) (s : Daemon) : Act → Bool
  | .orchestrate .. =>
    match s.orchestrator, s.queue with
    | .idle, (i, .session _ (.peerHandshake id _ _ _)) :: _ => s.identity cfg i = some id
    | .idle, (i, .session remote (.clipboardReceived _)) :: _ =>
      ∀ d ∈ s.remoteToDevice.lookup remote, ∀ k ∈ claimants d tr, s.keys[k]? = s.keys[i]?
    | .handshake h .promote, _ => ∀ k ∈ s.remoteHandles.lookup h.remote, s.keys[k]? = s.keys[h.session]?
    | _, _ => true
  | .unpairStep k _ =>
    match s.unpairs[k]? with
    | some ⟨_, d, .unpin⟩ => !s.reaches d
    | _ => true
  | _ => true

/-- Every session is known by the hash of its key, and a clip goes to sessions
with a pinned key only. -/
structure Identified (cfg : Config) (tr : List Obs) (s : Daemon) : Prop where
  recorded : ∀ i d, .recorded i d ∈ tr → s.identity cfg i = some d
  promoted : ∀ i d k, .promoted i d k ∈ tr → s.identity cfg i = some d ∧ s.identity cfg k = some d
  accepted : ∀ i d c, .accepted i d c ∈ tr → s.identity cfg i = some d
  connected : ∀ d i, s.connectedDevices.lookup d = some i → s.identity cfg i = some d ∧ d ∈ s.trust.paired
  handed : ∀ a s' os, step cfg s a = some (s', os) → ∀ loop d i c, .handed loop d i c ∈ os →
    s.identity cfg i = some d ∧ d ∈ s.trust.paired

structure IdentityInv (cfg : Config) (tr : List Obs) (s : Daemon) : Prop where
  recorded : ∀ i d, .recorded i d ∈ tr → s.identity cfg i = some d
  promoted : ∀ i d k, .promoted i d k ∈ tr → s.identity cfg i = some d ∧ s.identity cfg k = some d
  accepted : ∀ i d c, .accepted i d c ∈ tr → s.identity cfg i = some d
  noted : ∀ r d, s.remoteToDevice.lookup r = some d → ∃ k, .recorded k d ∈ tr
  handling : ∀ h, Orchestrator.handling? s.orchestrator = some h → s.identity cfg h.session = some h.deviceId
  received : ∀ r pc, s.orchestrator = .received r pc → s.identity cfg r.session = some r.sender
  sends : ∀ d i, s.Sends d i → s.identity cfg i = some d
  paired : ∀ d, s.reaches d = true → d ∈ s.trust.paired

section
variable {cfg : Config} {s s' : Daemon} {tr os : List Obs} {a : Act} {i : Nat} {d : DeviceId}

theorem mem_claimants : i ∈ claimants d tr ↔ .recorded i d ∈ tr := by
  unfold claimants
  rw [List.mem_filterMap]
  constructor
  · rintro ⟨o, ho, h⟩
    unfold Obs.records at h
    split at h
    · split at h
      · rename_i hid
        cases h
        exact hid ▸ ho
      · cases h
    · cases h
  · intro h
    exact ⟨_, h, by simp [Obs.records]⟩

theorem keys_step (h : step cfg s a = some (s', os)) : ∃ more, s'.keys = s.keys ++ more := by
  obtain ⟨more, hp⟩ := peers_step h
  have hk : ∀ s : Daemon, s.keys = s.peers.map Prod.snd := fun s => by
    unfold keys peers
    rw [List.map_map]
    rfl
  exact ⟨more.map Prod.snd, by rw [hk, hk, hp, List.map_append]⟩

theorem identity_step (h : step cfg s a = some (s', os)) (hx : s.identity cfg i = some d) :
    s'.identity cfg i = some d := by
  obtain ⟨more, hk⟩ := keys_step h
  unfold identity at hx ⊢
  obtain ⟨key, hkey, hd⟩ := Option.map_eq_some_iff.mp hx
  rw [hk, get_append hkey, Option.map_some, hd]

theorem identity_of_keys {j k : Nat} (h : s.keys[k]? = s.keys[j]?) : s.identity cfg k = s.identity cfg j := by
  unfold identity
  rw [h]

theorem genuine_recorded (hc : genuine cfg tr s a = true) (h : step cfg s a = some (s', os))
    (ho : .recorded i d ∈ os) : s.identity cfg i = some d := by
  obtain ⟨ok, target, remote, name, caps, token, rest, rfl, hor, hq⟩ := recorded_step h ho
  simpa only [genuine, hor, hq, decide_eq_true_eq] using hc

theorem IdentityInv.handle (hi : IdentityInv cfg tr s) (hc : genuine cfg tr s (.orchestrate ok target) = true)
    {hh : Handling} {k : Nat} (hor : s.orchestrator = .handshake hh .promote)
    (hk : s.remoteHandles.lookup hh.remote = some k) : s.identity cfg k = some hh.deviceId := by
  have hkey : s.keys[k]? = s.keys[hh.session]? := by
    simp only [genuine, hor, decide_eq_true_eq] at hc
    exact hc k hk
  rw [identity_of_keys hkey]
  exact hi.handling hh (by rw [hor]; rfl)

theorem IdentityInv.attributed {ok : Bool} {target : DeviceId} {remote : SocketAddr} {c : Clip}
    {rest : List (Nat × ListenerEvent)} (hi : IdentityInv cfg tr s)
    (hc : genuine cfg tr s (.orchestrate ok target) = true) (hor : s.orchestrator = .idle)
    (hq : s.queue = (i, .session remote (.clipboardReceived c)) :: rest)
    (hl : s.remoteToDevice.lookup remote = some d) : s.identity cfg i = some d := by
  obtain ⟨k, hk⟩ := hi.noted remote d hl
  have hkey : s.keys[k]? = s.keys[i]? := by
    simp only [genuine, hor, hq, decide_eq_true_eq] at hc
    exact hc d hl k (mem_claimants.mpr hk)
  rw [← identity_of_keys hkey]
  exact hi.recorded k d hk

theorem IdentityInv.step (hi : IdentityInv cfg tr s) (hc : genuine cfg tr s a = true)
    (h : step cfg s a = some (s', os)) : IdentityInv cfg (tr ++ os) s' where
  recorded := by
    intro i d hm
    refine identity_step h ?_
    rcases List.mem_append.mp hm with hm | hm
    · exact hi.recorded i d hm
    · exact genuine_recorded hc h hm
  promoted := by
    intro i d k hm
    rcases List.mem_append.mp hm with hm | hm
    · obtain ⟨h1, h2⟩ := hi.promoted i d k hm
      exact ⟨identity_step h h1, identity_step h h2⟩
    · obtain ⟨ok, target, hh, rfl, hor, rfl, rfl, hk⟩ := promoted_step h hm
      exact ⟨identity_step h (hi.handling hh (by rw [hor]; rfl)), identity_step h (hi.handle hc hor hk)⟩
  accepted := by
    intro i d c hm
    refine identity_step h ?_
    rcases List.mem_append.mp hm with hm | hm
    · exact hi.accepted i d c hm
    · exact hi.received _ _ (accepted_step h hm).1
  noted := by
    intro r d hx
    rcases noted_step h hx with hx | ⟨k, hk⟩
    · obtain ⟨k, hk⟩ := hi.noted r d hx
      exact ⟨k, List.mem_append_left _ hk⟩
    · exact ⟨k, List.mem_append_right _ hk⟩
  handling := by
    intro hh hx
    refine identity_step h ?_
    rcases handling_step h hx with hx | ho
    · exact hi.handling hh hx
    · exact genuine_recorded hc h ho
  received := by
    intro r pc hx
    refine identity_step h ?_
    rcases received_step h hx with ⟨pc', hx⟩ | ⟨-, ok, target, remote, rest, rfl, hor, hq, hl⟩
    · exact hi.received r pc' hx
    · exact hi.attributed hc hor hq hl
  sends := by
    intro d i hx
    refine identity_step h ?_
    rcases sends_step h hx with hx | ⟨hh, hor, rfl, hk, rfl⟩
    · exact hi.sends d i hx
    · obtain ⟨ok, target, hh', rfl, hor', -⟩ := promoted_step h (List.mem_singleton_self _)
      exact hi.handle hc hor hk
  paired := by
    intro d hx
    rcases reaches_step h hx with hr | hp
    · have hd := hi.paired d hr
      cases hm : step_paired h with
      | same hp _ _ => rwa [hp]
      | pinned hh _ hp =>
        rw [hp]
        exact Finset.mem_insert_of_mem hd
      | unpinned k call id hk hp =>
        rw [hp]
        refine Finset.mem_erase.mpr ⟨fun he => ?_, hd⟩
        subst he
        obtain ⟨k', ok, rfl, hk'⟩ := unpinned_step h (List.mem_singleton_self _)
        simp [genuine, hk', hr] at hc
    · exact hp

variable {file : Option PersistedState} {clipboard : Content}

theorem run_identity (h : Run (system cfg file clipboard) (genuine cfg · · · = true) tr s) :
    IdentityInv cfg tr s := by
  refine h.invariant (fun s h0 => ?_) (fun tr s a s' os _ hi hc hs => hi.step hc hs)
  obtain rfl : s = initial file clipboard := h0
  have hs : ∀ d i, ¬ (initial file clipboard).Sends d i := by
    intro d i hx
    simp [Sends, initial, Watch.targets, Orchestrator.targets] at hx
  exact
    { recorded := by simp
      promoted := by simp
      accepted := by simp
      noted := fun r d hx => by simp [initial] at hx
      handling := fun hh hx => by cases hx
      received := fun r pc hx => by cases hx
      sends := fun d i hx => absurd hx (hs d i)
      paired := fun d hx => by
        rcases reaches_iff.mp hx with ⟨i, hx⟩ | hx
        · exact absurd hx (hs d i)
        · cases hx }

/-- In a genuine run every session goes by the id of its own key. -/
theorem run_identified (h : Run (system cfg file clipboard) (genuine cfg · · · = true) tr s) :
    Identified cfg tr s := by
  have hi := run_identity h
  have hs : ∀ d i, s.Sends d i → s.identity cfg i = some d ∧ d ∈ s.trust.paired :=
    fun d i hx => ⟨hi.sends d i hx, hi.paired d (reaches_iff.mpr (Or.inl ⟨i, hx⟩))⟩
  exact
    { recorded := hi.recorded
      promoted := hi.promoted
      accepted := hi.accepted
      connected := fun d i hx => hs d i (Or.inl hx)
      handed := fun a s' os hstep loop d i c ho => hs d i (handed_sends hstep ho) }

end

/-- In a pairing window a tablet claims to be the phone, and then a text is copied. -/
def Sample.impostor : List Act :=
  Sample.pair 0 (Sample.addr 2) Sample.phoneKey ++ [.startPairing Sample.token, .openWindow 0] ++
    Sample.connect 1 (Sample.addr 3) Sample.tabletKey ++ Sample.greet 1 Sample.phone none ++ Sample.turns 5 ++
    [.probe, .copy ⟨mimeTextPlain, [65]⟩] ++ List.replicate 5 (.watch true Sample.phone)

open Sample in
theorem impostor_enabled :
    (exec (system cfg none empty) anyway [] (initial none empty) impostor).isSome = true := by
  decide +kernel

open Sample in
/-- The key of session 1 is not pinned, yet it stands for the phone and is sent the text. -/
theorem impostor_connected : ∃ tr s, Run (system cfg none empty) always tr s ∧ s.identity cfg 1 = some tablet ∧
    tablet ∉ s.trust.paired ∧ phone ∈ s.trust.paired ∧ .recorded 1 phone ∈ tr ∧
    s.connectedDevices.lookup phone = some 1 ∧ .handed .watch phone 1 clipA ∈ tr := by
  refine ⟨_, _, run_of_anyway rfl impostor_enabled, ?_⟩
  decide +kernel

/-- Two devices are paired, and one sends a clip that goes on to the other. -/
def Sample.relayed : List Act :=
  Sample.pair 0 (Sample.addr 2) Sample.phoneKey ++ Sample.pair 1 (Sample.addr 3) Sample.tabletKey ++
    Sample.share 1 Sample.clipA ++ Sample.turns 6

open Sample in
theorem relayed_enabled :
    (exec (system cfg none empty) (genuine cfg) [] (initial none empty) relayed).isSome = true := by
  decide +kernel

open Sample in
theorem run_identified_relayed :
    let r := (exec (system cfg none empty) (genuine cfg) [] (initial none empty) relayed).get relayed_enabled
    Identified cfg r.1 r.2 ∧ .accepted 1 tablet clipA ∈ r.1 ∧ .handed .received phone 0 clipA ∈ r.1 := by
  refine ⟨run_identified (run_of_exec (fun _ _ _ h => h) rfl relayed_enabled), ?_⟩
  decide +kernel

end Daemon

end PenguinSync
