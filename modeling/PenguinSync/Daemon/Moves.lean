import PenguinSync.Daemon.Orchestrator

/-!
# What a task can do next

For each place where the orchestrator or the watch can stand, one constructor
for each way on from it, with all that is known where it is taken.
-/

namespace PenguinSync

namespace Daemon

/-! ## `handle_handshake` -/

inductive HandshakeMove (s : Daemon) (h : Handling) (ok : Bool) : HandshakePc → Daemon → List Obs → Prop
  | known : h.deviceId ∈ s.trust.paired → HandshakeMove s h ok .isPaired (s.handshake h .ensureObject) []
  | tokenless : h.deviceId ∉ s.trust.paired → h.pairingToken = none → HandshakeMove s h ok .isPaired s.idle []
  | presents (presented : TokenBytes) : h.deviceId ∉ s.trust.paired → h.pairingToken = some presented →
      HandshakeMove s h ok .isPaired (s.handshake h (.redeem presented)) []
  | unissued (presented : TokenBytes) : s.currentToken = none → HandshakeMove s h ok (.redeem presented) s.idle []
  | unredeemed (presented : TokenBytes) (t : PairingToken) (e : RedeemError) : s.currentToken = some t →
      t.redeem presented s.now = .error e → HandshakeMove s h ok (.redeem presented) s.idle []
  | redeems (presented : TokenBytes) (t t' : PairingToken) : s.currentToken = some t →
      t.redeem presented s.now = .ok t' → HandshakeMove s h ok (.redeem presented)
        (({ s with currentToken := some t' } : Daemon).handshake h .pairingRequested)
        [.redeemed h.deviceId presented s.now]
  | asks : HandshakeMove s h ok .pairingRequested (s.handshake h .awaitConfirmation)
      [.pairingRequested (toHex h.deviceId) (shortFingerprint h.deviceId) h.name]
  | registers : HandshakeMove s h ok .awaitConfirmation
      (({ s with
          pendingConfirmations := s.pendingConfirmations.insert h.deviceId s.nextChannel
          nextChannel := s.nextChannel + 1 } : Daemon).handshake h
        (.awaiting s.nextChannel (s.now + confirmationTimeout) none)) []
  | confirmed (ch : Nat) (deadline : Time) :
      HandshakeMove s h ok (.awaiting ch deadline (some true)) (s.handshake h .pin) []
  | rejected (ch : Nat) (deadline : Time) : HandshakeMove s h ok (.awaiting ch deadline (some false)) s.idle []
  | timedOut (ch : Nat) (deadline : Time) : deadline ≤ s.now →
      HandshakeMove s h ok (.awaiting ch deadline none) s.idle []
  | pins : HandshakeMove s h ok .pin
      (({ s with trust := s.trust.pin h.deviceId } : Daemon).handshake h .closeWindow) [.pinned h.deviceId]
  | closesWindow : HandshakeMove s h ok .closeWindow
      (({ s with trust := s.trust.closePairingWindow } : Daemon).handshake h .upsert) []
  | upserts : HandshakeMove s h ok .upsert
      (({ s with state := s.state.upsert h.deviceId h.name } : Daemon).handshake h .persist) []
  | persists : HandshakeMove s h ok .persist ((s.persistState ok).handshake h .ensureObject) []
  | ensures : HandshakeMove s h ok .ensureObject
      (s.handshake h (if (s.objects.lookup h.deviceId).isSome then .setConnected else .createObject)) []
  | creates : HandshakeMove s h ok .createObject
      (({ s with
          objects := if (s.objects.lookup h.deviceId).isSome then s.objects
            else s.objects.insert h.deviceId ⟨h.name, toHex h.deviceId, false⟩ } : Daemon).handshake h .setConnected) []
  | sets : HandshakeMove s h ok .setConnected
      (({ s with objects := PenguinSync.setConnected s.objects h.deviceId true } : Daemon).handshake h .promote) []
  | promotes (i : Nat) : s.remoteHandles.lookup h.remote = some i → HandshakeMove s h ok .promote
      ({ s with connectedDevices := s.connectedDevices.insert h.deviceId i } : Daemon).idle
      [.promoted h.session h.deviceId i]
  | handleless : s.remoteHandles.lookup h.remote = none → HandshakeMove s h ok .promote s.idle []

section
variable {s s' : Daemon} {os : List Obs} {h : Handling} {pc : HandshakePc} {ok : Bool}

theorem handshakeStep_move (hs : s.handshakeStep h ok pc = some (s', os)) : HandshakeMove s h ok pc s' os := by
  cases pc with
  | isPaired =>
    simp only [handshakeStep] at hs
    split at hs
    · rename_i hp
      cases hs
      exact .known (of_decide_eq_true hp)
    · rename_i hp
      have hp : h.deviceId ∉ s.trust.paired := fun hm => hp (decide_eq_true hm)
      split at hs
      · rename_i ht
        cases hs
        exact .tokenless hp ht
      · rename_i presented ht
        cases hs
        exact .presents presented hp ht
  | redeem presented =>
    simp only [handshakeStep] at hs
    split at hs
    · rename_i ht
      cases hs
      exact .unissued presented ht
    · rename_i t ht
      split at hs
      · rename_i t' hr
        cases hs
        exact .redeems presented t t' ht hr
      · rename_i e hr
        cases hs
        exact .unredeemed presented t e ht hr
  | pairingRequested => cases hs; exact .asks
  | awaitConfirmation => cases hs; exact .registers
  | awaiting ch deadline ans =>
    cases ans with
    | none =>
      simp only [handshakeStep, Option.ite_none_right_eq_some] at hs
      obtain ⟨hd, hs⟩ := hs
      cases hs
      exact .timedOut ch deadline hd
    | some accept =>
      cases accept with
      | false => cases hs; exact .rejected ch deadline
      | true => cases hs; exact .confirmed ch deadline
  | pin => cases hs; exact .pins
  | closeWindow => cases hs; exact .closesWindow
  | upsert => cases hs; exact .upserts
  | persist => cases hs; exact .persists
  | ensureObject => cases hs; exact .ensures
  | createObject => cases hs; exact .creates
  | setConnected => cases hs; exact .sets
  | promote =>
    simp only [handshakeStep] at hs
    split at hs
    · rename_i i hi
      cases hs
      exact .promotes i hi
    · rename_i hi
      cases hs
      exact .handleless hi

end

/-! ## `handle_received` -/

inductive ReceivedMove (s : Daemon) (r : Received) (ok : Bool) (target : DeviceId) :
    ReceivedPc → Daemon → List Obs → Prop
  | accepts : r.sender ∈ s.trust.paired → r.clip.mime = mimeTextPlain →
      ReceivedMove s r ok target .isPaired { s with orchestrator := .received r .shouldBroadcast }
        [.accepted r.session r.sender r.clip]
  | drops : ¬ (r.sender ∈ s.trust.paired ∧ r.clip.mime = mimeTextPlain) →
      ReceivedMove s r ok target .isPaired { s with orchestrator := .idle } []
  | passes : s.lastHash ≠ some r.clip.hash → ReceivedMove s r ok target .shouldBroadcast
      { s with lastHash := some r.clip.hash, orchestrator := .received r .write } [.checked .received r.clip]
  | suppresses : s.lastHash = some r.clip.hash → ReceivedMove s r ok target .shouldBroadcast
      { s with orchestrator := .idle } [.checked .received r.clip]
  | writes : s.backend = true → ok = true → fromUtf8 r.clip.content ≠ none → ReceivedMove s r ok target .write
      { s.setContent ⟨r.clip.mime, r.clip.content⟩ with orchestrator := .received r .handles } [.applied r.sender r.clip]
  | unwritten : ¬ (s.backend = true ∧ ok = true ∧ fromUtf8 r.clip.content ≠ none) →
      ReceivedMove s r ok target .write { s with orchestrator := .received r .handles } []
  | snapshots : ReceivedMove s r ok target .handles
      { s with orchestrator := .received r (.relay (s.connectedDevices.erase r.sender)) } []
  | relayed (rest : HashMap DeviceId Nat) : rest.keys = ∅ →
      ReceivedMove s r ok target (.relay rest) { s with orchestrator := .idle } []
  | relays (rest : HashMap DeviceId Nat) (i : Nat) : rest.lookup target = some i →
      ReceivedMove s r ok target (.relay rest)
        { s.sendClipboard i r.clip with orchestrator := .received r (.relay (rest.erase target)) }
        [.handed .received target i r.clip]

/-! ## `watch_and_broadcast` -/

inductive WatchMove (cfg : Config) (s : Daemon) (ok : Bool) (target : DeviceId) : Watch → Daemon → List Obs → Prop
  | skips (mime : String) (rest : List String) : s.changes = mime :: rest → mime ≠ mimeTextPlain →
      WatchMove cfg s ok target .idle { s with changes := rest } []
  | notices (rest : List String) : s.changes = mimeTextPlain :: rest →
      WatchMove cfg s ok target .idle { s with changes := rest, watch := .reading mimeTextPlain } []
  | unread (mime : String) : ¬ (ok = true ∧ s.clipboard.mime = mimeTextPlain) →
      WatchMove cfg s ok target (.reading mime) { s with watch := .idle } []
  | rejects (mime : String) (e : ClipError) : Clip.new cfg.crypto.blake3 mime s.clipboard.bytes = .error e →
      WatchMove cfg s ok target (.reading mime) { s with watch := .idle } []
  | reads (mime : String) (c : Clip) : ok = true → s.clipboard.mime = mimeTextPlain →
      Clip.new cfg.crypto.blake3 mime s.clipboard.bytes = .ok c →
      WatchMove cfg s ok target (.reading mime) { s with watch := .checking c } []
  | passes (c : Clip) : s.lastHash ≠ some c.hash → WatchMove cfg s ok target (.checking c)
      { s with lastHash := some c.hash, watch := .handles c } [.checked .watch c]
  | suppresses (c : Clip) : s.lastHash = some c.hash →
      WatchMove cfg s ok target (.checking c) { s with watch := .idle } [.checked .watch c]
  | snapshots (c : Clip) :
      WatchMove cfg s ok target (.handles c) { s with watch := .sending c s.connectedDevices } []
  | sent (c : Clip) (rest : HashMap DeviceId Nat) : rest.keys = ∅ →
      WatchMove cfg s ok target (.sending c rest) { s with watch := .idle } []
  | sends (c : Clip) (rest : HashMap DeviceId Nat) (i : Nat) : rest.lookup target = some i →
      WatchMove cfg s ok target (.sending c rest)
        { s.sendClipboard i c with watch := .sending c (rest.erase target) } [.handed .watch target i c]

section
variable {cfg : Config} {s s' : Daemon} {os : List Obs} {ok : Bool} {target : DeviceId}

theorem receivedStep_move {r : Received} {pc : ReceivedPc} (h : s.receivedStep r ok target pc = some (s', os)) :
    ReceivedMove s r ok target pc s' os := by
  cases pc with
  | isPaired =>
    simp only [receivedStep] at h
    split at h
    · rename_i hp
      cases h
      exact .accepts (of_decide_eq_true hp.1) hp.2
    · rename_i hp
      cases h
      exact .drops fun hc => hp ⟨decide_eq_true hc.1, hc.2⟩
  | shouldBroadcast =>
    simp only [receivedStep, shouldBroadcast, decide_eq_true_eq] at h
    split at h
    · rename_i hn
      cases h
      exact .passes hn
    · rename_i hn
      cases h
      exact .suppresses (not_not.mp hn)
  | write =>
    simp only [receivedStep] at h
    split at h
    · rename_i hw
      cases h
      exact .writes hw.1 hw.2.1 hw.2.2
    · rename_i hw
      cases h
      exact .unwritten hw
  | handles =>
    cases h
    exact .snapshots
  | relay rest =>
    simp only [receivedStep] at h
    split at h
    · rename_i he
      cases h
      exact .relayed rest he
    · split at h
      · cases h
      · rename_i i hi
        cases h
        exact .relays rest i hi

theorem watchStep_move {w : Watch} (hw : s.watch = w) (h : s.watchStep cfg ok target = some (s', os)) :
    WatchMove cfg s ok target w s' os := by
  unfold watchStep at h
  split at h
  · cases h
  · rename_i hx
    obtain rfl := hw.symm.trans hx
    split at h
    · cases h
    · rename_i mime rest hc
      split at h
      · rename_i hm
        cases h
        exact .skips mime rest hc hm
      · rename_i hm
        rw [not_not] at hm
        subst hm
        cases h
        exact .notices rest hc
  · rename_i mime hx
    obtain rfl := hw.symm.trans hx
    split at h
    · rename_i hr
      split at h
      · rename_i c hc
        cases h
        exact .reads mime c hr.1 hr.2 hc
      · rename_i e he
        cases h
        exact .rejects mime e he
    · rename_i hr
      cases h
      exact .unread mime hr
  · rename_i c hx
    obtain rfl := hw.symm.trans hx
    simp only [shouldBroadcast, decide_eq_true_eq] at h
    split at h
    · rename_i hn
      cases h
      exact .passes c hn
    · rename_i hn
      cases h
      exact .suppresses c (not_not.mp hn)
  · rename_i c hx
    obtain rfl := hw.symm.trans hx
    cases h
    exact .snapshots c
  · rename_i c rest hx
    obtain rfl := hw.symm.trans hx
    split at h
    · rename_i he
      cases h
      exact .sent c rest he
    · split at h
      · cases h
      · rename_i i hi
        cases h
        exact .sends c rest i hi

end

end Daemon

end PenguinSync
