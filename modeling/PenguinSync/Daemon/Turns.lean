import PenguinSync.Daemon.Pairings

/-!
# Turns

An observation tells whose step it was; what the orchestrator has in hand and
what it has noted of each connection comes from the events it took.
-/

namespace PenguinSync

namespace Daemon

section
variable {cfg : Config} {s s' : Daemon} {a : Act} {os : List Obs}

/-! ## Whose observation it is -/

/-- What no other task emits, the orchestrator does in its turn. -/
theorem step_turn {o : Obs} (h : step cfg s a = some (s', os)) (ho : o ∈ os) (hn : ∀ i x, o ≠ .out i x)
    (hl : Obs.local o = false) (hb : Obs.bus o = false) :
    ∃ ok target, a = .orchestrate ok target ∧ Turn s s' ok target os := by
  cases ha : a.task with
  | net =>
    obtain ⟨-, hos⟩ := net_frame h ha
    obtain ⟨i, x, rfl⟩ := hos o ho
    exact absurd rfl (hn i x)
  | clipboard =>
    obtain ⟨-, -, hos⟩ := clipboard_frame h ha
    rw [hos o ho] at hl
    cases hl
  | bus =>
    obtain ⟨-, hos⟩ := bus_frame h ha
    rw [hos o ho] at hb
    cases hb
  | orchestrator =>
    cases a with
    | orchestrate ok target => exact ⟨ok, target, rfl, orchestrate_turn h⟩
    | _ => cases ha

theorem Obs.not_of_receiving {o : Obs} (h : Obs.receiving o = true) :
    Obs.taking o = false ∧ Obs.handshaking o = false := by
  unfold Obs.receiving at h
  split at h <;> first | exact ⟨rfl, rfl⟩ | cases h

theorem Obs.not_taking_of_handshaking {o : Obs} (h : Obs.handshaking o = true) : Obs.taking o = false := by
  unfold Obs.handshaking at h
  split at h <;> first | rfl | cases h

theorem Turn.of_receiving {ok : Bool} {target : DeviceId} {o : Obs} (h : Turn s s' ok target os) (ho : o ∈ os)
    (hr : Obs.receiving o = true) :
    ∃ r pc, s.orchestrator = .received r pc ∧ s.receivedStep r ok target pc = some (s', os) := by
  cases h with
  | taken i e rest _ _ hd =>
    have := (dispatch_frame hd).2 o ho
    rw [(Obs.not_of_receiving hr).1] at this
    cases this
  | handshake hh pc _ hs =>
    have := (handshakeStep_frame hs).2 o ho
    rw [(Obs.not_of_receiving hr).2] at this
    cases this
  | received r pc hor hs => exact ⟨r, pc, hor, hs⟩
  | closed id pc _ _ => simp at ho

theorem Turn.of_handshaking {ok : Bool} {target : DeviceId} {o : Obs} (h : Turn s s' ok target os) (ho : o ∈ os)
    (hr : Obs.handshaking o = true) :
    ∃ hh pc, s.orchestrator = .handshake hh pc ∧ s.handshakeStep hh ok pc = some (s', os) := by
  cases h with
  | taken i e rest _ _ hd =>
    have := (dispatch_frame hd).2 o ho
    rw [Obs.not_taking_of_handshaking hr] at this
    cases this
  | handshake hh pc hor hs => exact ⟨hh, pc, hor, hs⟩
  | received r pc _ hs =>
    have := (Obs.not_of_receiving ((receivedStep_frame hs).2.2 o ho)).2
    rw [hr] at this
    cases this
  | closed id pc _ _ => simp at ho

theorem Turn.of_taking {ok : Bool} {target : DeviceId} {o : Obs} (h : Turn s s' ok target os) (ho : o ∈ os)
    (hr : Obs.taking o = true) : ∃ i e rest, s.orchestrator = .idle ∧ s.queue = (i, e) :: rest ∧
      ({ s with queue := rest } : Daemon).dispatch i e = (s', os) := by
  cases h with
  | taken i e rest hor hq hd => exact ⟨i, e, rest, hor, hq, hd⟩
  | handshake hh pc _ hs =>
    have := Obs.not_taking_of_handshaking ((handshakeStep_frame hs).2 o ho)
    rw [hr] at this
    cases this
  | received r pc _ hs =>
    have := (Obs.not_of_receiving ((receivedStep_frame hs).2.2 o ho)).1
    rw [hr] at this
    cases this
  | closed id pc _ _ => simp at ho

theorem step_local {o : Obs} (h : step cfg s a = some (s', os)) (ho : o ∈ os) (hl : Obs.local o = true) :
    (∃ c, a = .copy c ∧ o = .copied c) ∨
      ∃ ok target, a = .watch ok target ∧ s.watchStep cfg ok target = some (s', os) := by
  cases ha : a.task with
  | net =>
    obtain ⟨i, x, rfl⟩ := (net_frame h ha).2 o ho
    cases hl
  | clipboard =>
    cases a with
    | watch ok target => exact Or.inr ⟨ok, target, rfl, h⟩
    | copy c =>
      cases h
      exact Or.inl ⟨c, rfl, List.mem_singleton.mp ho⟩
    | probe =>
      simp only [step, probe, Option.ite_none_left_eq_some, Option.some.injEq, Prod.mk.injEq] at h
      obtain ⟨-, -, rfl⟩ := h
      simp at ho
    | notify =>
      cases h
      simp at ho
    | watchEnds =>
      simp only [step, watchEnds] at h
      split at h <;> (cases h; try simp at ho)
    | _ => cases ha
  | bus =>
    have := (bus_frame h ha).2 o ho
    unfold Obs.local at hl
    split at hl <;> first | cases this | cases hl
  | orchestrator =>
    cases a with
    | orchestrate ok target =>
      unfold Obs.local at hl
      cases orchestrate_turn h with
      | taken i e rest _ _ hd =>
        have := (dispatch_frame hd).2 o ho
        split at hl <;> first | cases this | cases hl
      | handshake hh pc _ hs =>
        have := (handshakeStep_frame hs).2 o ho
        split at hl <;> first | cases this | cases hl
      | received r pc _ hs =>
        have := (receivedStep_frame hs).2.2 o ho
        split at hl <;> first | cases this | cases hl
      | closed id pc _ _ => simp at ho
    | _ => cases ha

/-! ## What the orchestrator turns to -/

theorem dispatch_recorded {i j : Nat} {e : ListenerEvent} {d : DeviceId} (h : s.dispatch i e = (s', os))
    (ho : .recorded j d ∈ os) : j = i ∧ ∃ remote name caps token, e = .session remote (.peerHandshake d name caps token) := by
  cases e with
  | connected remote handle =>
    cases h
    simp at ho
  | session remote ev =>
    cases ev with
    | peerHandshake deviceId name caps token =>
      cases h
      simp only [List.mem_singleton, Obs.recorded.injEq] at ho
      obtain ⟨rfl, rfl⟩ := ho
      exact ⟨rfl, remote, name, caps, token, rfl⟩
    | ponged rtt =>
      cases h
      simp at ho
    | clipboardReceived clip =>
      simp only [dispatch] at h
      split at h <;> (cases h; simp at ho)
    | closed r =>
      cases h
      simp at ho

theorem recorded_step {i : Nat} {d : DeviceId} (h : step cfg s a = some (s', os)) (ho : .recorded i d ∈ os) :
    ∃ ok target remote name caps token rest, a = .orchestrate ok target ∧ s.orchestrator = .idle ∧
      s.queue = (i, .session remote (.peerHandshake d name caps token)) :: rest := by
  obtain ⟨ok, target, rfl, ht⟩ := step_turn h ho (by simp) rfl rfl
  obtain ⟨j, e, rest, hor, hq, hd⟩ := ht.of_taking ho rfl
  obtain ⟨rfl, remote, name, caps, token, rfl⟩ := dispatch_recorded hd ho
  exact ⟨ok, target, remote, name, caps, token, rest, rfl, hor, hq⟩

theorem handshakeStep_promoted {h : Handling} {pc : HandshakePc} {ok : Bool} {i k : Nat} {d : DeviceId}
    (hs : s.handshakeStep h ok pc = some (s', os)) (ho : .promoted i d k ∈ os) :
    pc = .promote ∧ h.session = i ∧ h.deviceId = d ∧ s.remoteHandles.lookup h.remote = some k := by
  cases pc with
  | isPaired =>
    simp only [handshakeStep] at hs
    split at hs
    · cases hs; simp at ho
    · split at hs <;> (cases hs; simp at ho)
  | redeem presented =>
    simp only [handshakeStep] at hs
    split at hs
    · cases hs; simp at ho
    · split at hs <;> (cases hs; simp at ho)
  | awaiting ch deadline ans =>
    cases ans with
    | none =>
      simp only [handshakeStep, Option.ite_none_right_eq_some] at hs
      obtain ⟨-, hs⟩ := hs
      cases hs
      simp at ho
    | some accept => cases accept <;> (cases hs; simp at ho)
  | promote =>
    simp only [handshakeStep] at hs
    split at hs
    · rename_i k' hk
      cases hs
      simp only [List.mem_singleton, Obs.promoted.injEq] at ho
      obtain ⟨rfl, rfl, rfl⟩ := ho
      exact ⟨rfl, rfl, rfl, hk⟩
    · cases hs; simp at ho
  | _ =>
    cases hs
    simp at ho

theorem promoted_step {i k : Nat} {d : DeviceId} (h : step cfg s a = some (s', os)) (ho : .promoted i d k ∈ os) :
    ∃ ok target hh, a = .orchestrate ok target ∧ s.orchestrator = .handshake hh .promote ∧ hh.session = i ∧
      hh.deviceId = d ∧ s.remoteHandles.lookup hh.remote = some k := by
  obtain ⟨ok, target, rfl, ht⟩ := step_turn h ho (by simp) rfl rfl
  obtain ⟨hh, pc, hor, hs⟩ := ht.of_handshaking ho rfl
  obtain ⟨rfl, hi, hd, hk⟩ := handshakeStep_promoted hs ho
  exact ⟨ok, target, hh, rfl, hor, hi, hd, hk⟩

theorem receivedStep_accepted {r : Received} {pc : ReceivedPc} {ok : Bool} {target d : DeviceId} {i : Nat} {c : Clip}
    (h : s.receivedStep r ok target pc = some (s', os)) (ho : .accepted i d c ∈ os) :
    pc = .isPaired ∧ r = ⟨i, d, c⟩ ∧ d ∈ s.trust.paired ∧ c.mime = mimeTextPlain := by
  cases pc with
  | isPaired =>
    simp only [receivedStep] at h
    split at h
    · rename_i hp
      cases h
      simp only [List.mem_singleton, Obs.accepted.injEq] at ho
      obtain ⟨rfl, rfl, rfl⟩ := ho
      exact ⟨rfl, rfl, of_decide_eq_true hp.1, hp.2⟩
    · cases h; simp at ho
  | shouldBroadcast =>
    simp only [receivedStep] at h
    split at h <;> (cases h; simp at ho)
  | write =>
    simp only [receivedStep] at h
    split at h <;> (cases h; simp at ho)
  | handles =>
    cases h
    simp at ho
  | relay rest =>
    simp only [receivedStep] at h
    split at h
    · cases h; simp at ho
    · split at h <;> (cases h; try simp at ho)

theorem accepted_step {i : Nat} {d : DeviceId} {c : Clip} (h : step cfg s a = some (s', os))
    (ho : .accepted i d c ∈ os) :
    s.orchestrator = .received ⟨i, d, c⟩ .isPaired ∧ d ∈ s.trust.paired ∧ c.mime = mimeTextPlain := by
  obtain ⟨ok, target, -, ht⟩ := step_turn h ho (by simp) rfl rfl
  obtain ⟨r, pc, hor, hs⟩ := ht.of_receiving ho rfl
  obtain ⟨rfl, rfl, hp, hm⟩ := receivedStep_accepted hs ho
  exact ⟨hor, hp, hm⟩

theorem handling_step {hh : Handling} (h : step cfg s a = some (s', os))
    (hx : Orchestrator.handling? s'.orchestrator = some hh) :
    Orchestrator.handling? s.orchestrator = some hh ∨ .recorded hh.session hh.deviceId ∈ os := by
  cases ha : a.task with
  | net =>
    obtain ⟨⟨_, _, _, rfl⟩, -⟩ := net_frame h ha
    exact Or.inl hx
  | clipboard =>
    obtain ⟨⟨_, _, _, _, _, _, rfl⟩, -, -⟩ := clipboard_frame h ha
    exact Or.inl hx
  | bus =>
    obtain ⟨⟨_, _, _, _, _, _, _, _, _, _, _, rfl, hor, -⟩, -⟩ := bus_frame h ha
    rcases hor with rfl | ⟨channel, accept, rfl⟩
    · exact Or.inl hx
    · exact Or.inl ((answer_handling channel accept _).symm.trans hx)
  | orchestrator =>
    cases a with
    | orchestrate ok target =>
      cases orchestrate_turn h with
      | taken i e rest hor _ hd =>
        cases e with
        | connected remote handle =>
          cases hd
          exact Or.inl hx
        | session remote ev =>
          cases ev with
          | peerHandshake deviceId name caps token =>
            cases hd
            cases hx
            exact Or.inr (List.mem_singleton_self _)
          | ponged rtt =>
            cases hd
            exact Or.inl hx
          | clipboardReceived clip =>
            simp only [dispatch] at hd
            split at hd
            · cases hd
              cases hx
            · cases hd
              exact Or.inl hx
          | closed r =>
            cases hd
            simp only at hx
            split at hx <;> cases hx
      | handshake hh' pc hor hs =>
        obtain ⟨⟨_, _, _, _, _, _, _, _, o, rfl, hor'⟩, -⟩ := handshakeStep_frame hs
        rcases hor' with rfl | ⟨pc', rfl⟩
        · cases hx
        · rw [hor]
          exact Or.inl hx
      | received r pc hor hr =>
        obtain ⟨⟨_, _, _, _, _, rfl, hor'⟩, -, -⟩ := receivedStep_frame hr
        rcases hor' with rfl | ⟨pc', rfl⟩ <;> cases hx
      | closed id pc hor hc =>
        subst hc
        cases pc <;> cases hx
    | _ => cases ha

theorem step_handshake {hh : Handling} {pc : HandshakePc} (ho : s.orchestrator = .handshake hh pc) (ok : Bool)
    (target : DeviceId) : step cfg s (.orchestrate ok target) = s.handshakeStep hh ok pc := by
  simp only [step, orchestrate, ho]

/-- A handshake at hand takes its own step, is left as it is or gets its answer. -/
inductive HandlingMove (s s' : Daemon) (hh : Handling) : HandshakePc → Act → List Obs → Prop
  | turn {pc : HandshakePc} {os : List Obs} (ok : Bool) (target : DeviceId) :
      s.handshakeStep hh ok pc = some (s', os) → HandlingMove s s' hh pc (.orchestrate ok target) os
  | kept {pc : HandshakePc} {a : Act} {os : List Obs} : a.task ≠ .orchestrator → s'.orchestrator = .handshake hh pc →
      HandlingMove s s' hh pc a os
  | answered (ch : Nat) (deadline : Time) (hex : String) (id : DeviceId) (accept : Bool) : fromHex hex = some id →
      s.pendingConfirmations.lookup id = some ch →
      s' = { s with
        pendingConfirmations := s.pendingConfirmations.erase id
        orchestrator := .handshake hh (.awaiting ch deadline (some accept)) } →
      HandlingMove s s' hh (.awaiting ch deadline none) (.confirmPairing hex accept) [.confirmed id accept]

theorem handling_move {hh : Handling} {pc : HandshakePc} (h : step cfg s a = some (s', os))
    (ho : s.orchestrator = .handshake hh pc) : HandlingMove s s' hh pc a os := by
  cases ha : a.task with
  | net =>
    obtain ⟨⟨_, _, _, rfl⟩, -⟩ := net_frame h ha
    exact .kept (by simp [ha]) ho
  | clipboard =>
    obtain ⟨⟨_, _, _, _, _, _, rfl⟩, -, -⟩ := clipboard_frame h ha
    exact .kept (by simp [ha]) ho
  | bus =>
    have hk : s'.orchestrator = s.orchestrator → HandlingMove s s' hh pc a os := fun he =>
      .kept (by simp [ha]) (he.trans ho)
    cases a with
    | startPairing random =>
      cases h
      exact hk rfl
    | openWindow k =>
      simp only [step, openWindow] at h
      split at h
      · cases h
        exact hk rfl
      · cases h
    | setToken k addrs =>
      simp only [step, setToken] at h
      split at h
      · cases h
        exact hk rfl
      · cases h
    | confirmPairing hex accept =>
      simp only [step, confirmPairing] at h
      split at h
      · cases h
        exact hk rfl
      · rename_i id hid
        split at h
        · cases h
          exact hk rfl
        · rename_i ch hl
          cases h
          rcases answer_cases ch accept s.orchestrator with he | ⟨hh', deadline, hw, he⟩
          · exact hk he
          · cases ho.symm.trans hw
            exact .answered ch deadline hex id accept hid hl (by rw [he])
    | unpair deviceId =>
      simp only [step, unpair] at h
      split at h <;> (cases h; exact hk rfl)
    | unpairStep k ok =>
      simp only [step, unpairStep, persistState_eq] at h
      split at h
      · cases h
      iterate 4
        · cases h
          exact hk rfl
    | restore =>
      obtain ⟨⟨_, _, rfl⟩, -⟩ := restore_frame h
      exact hk rfl
    | _ => cases ha
  | orchestrator =>
    cases a with
    | orchestrate ok target =>
      simp only [step, orchestrate, ho] at h
      exact .turn ok target h
    | _ => cases ha

theorem received_step {r : Received} {pc : ReceivedPc} (h : step cfg s a = some (s', os))
    (hx : s'.orchestrator = .received r pc) :
    (∃ pc', s.orchestrator = .received r pc') ∨ pc = .isPaired ∧ ∃ ok target remote rest, a = .orchestrate ok target ∧
      s.orchestrator = .idle ∧ s.queue = (r.session, .session remote (.clipboardReceived r.clip)) :: rest ∧
      s.remoteToDevice.lookup remote = some r.sender := by
  cases ha : a.task with
  | net =>
    obtain ⟨⟨_, _, _, rfl⟩, -⟩ := net_frame h ha
    exact Or.inl ⟨pc, hx⟩
  | clipboard =>
    obtain ⟨⟨_, _, _, _, _, _, rfl⟩, -, -⟩ := clipboard_frame h ha
    exact Or.inl ⟨pc, hx⟩
  | bus =>
    obtain ⟨⟨_, _, _, _, _, _, _, _, _, _, _, rfl, hor, -⟩, -⟩ := bus_frame h ha
    rcases hor with rfl | ⟨channel, accept, rfl⟩
    · exact Or.inl ⟨pc, hx⟩
    · rcases answer_cases channel accept s.orchestrator with ho | ⟨_, _, -, ho⟩
      · exact Or.inl ⟨pc, ho.symm.trans hx⟩
      · cases ho.symm.trans hx
  | orchestrator =>
    cases a with
    | orchestrate ok target =>
      cases orchestrate_turn h with
      | taken i e rest hor hq hd =>
        cases e with
        | connected remote handle =>
          cases hd
          exact Or.inl ⟨pc, hx⟩
        | session remote ev =>
          cases ev with
          | peerHandshake deviceId name caps token =>
            cases hd
            cases hx
          | ponged rtt =>
            cases hd
            exact Or.inl ⟨pc, hx⟩
          | clipboardReceived clip =>
            simp only [dispatch] at hd
            split at hd
            · rename_i sender hl
              cases hd
              cases hx
              exact Or.inr ⟨rfl, ok, target, remote, rest, rfl, hor, hq, hl⟩
            · cases hd
              exact Or.inl ⟨pc, hx⟩
          | closed r =>
            cases hd
            simp only at hx
            split at hx <;> cases hx
      | handshake hh' pc hor hs =>
        obtain ⟨⟨_, _, _, _, _, _, _, _, o, rfl, hor'⟩, -⟩ := handshakeStep_frame hs
        rcases hor' with rfl | ⟨pc', rfl⟩ <;> cases hx
      | received r' pc hor hr =>
        obtain ⟨⟨_, _, _, _, _, rfl, hor'⟩, -, -⟩ := receivedStep_frame hr
        rcases hor' with rfl | ⟨pc', rfl⟩
        · cases hx
        · cases hx
          exact Or.inl ⟨_, hor⟩
      | closed id pc hor hc =>
        subst hc
        cases pc <;> cases hx
    | _ => cases ha

theorem maps_step (h : step cfg s a = some (s', os)) :
    (s'.remoteToDevice = s.remoteToDevice ∧ s'.remoteHandles = s.remoteHandles ∧ ∀ o ∈ os, Obs.taking o = false) ∨
      ∃ ok target i e rest, a = .orchestrate ok target ∧ s.orchestrator = .idle ∧ s.queue = (i, e) :: rest ∧
        ({ s with queue := rest } : Daemon).dispatch i e = (s', os) := by
  cases ha : a.task with
  | net =>
    obtain ⟨⟨_, _, _, rfl⟩, ho⟩ := net_frame h ha
    refine Or.inl ⟨rfl, rfl, fun o hm => ?_⟩
    obtain ⟨i, x, rfl⟩ := ho o hm
    rfl
  | clipboard =>
    obtain ⟨⟨_, _, _, _, _, _, rfl⟩, -, ho⟩ := clipboard_frame h ha
    refine Or.inl ⟨rfl, rfl, fun o hm => ?_⟩
    have := ho o hm
    cases o <;> first | rfl | cases this
  | bus =>
    obtain ⟨⟨_, _, _, _, _, _, _, _, _, _, _, rfl, -⟩, ho⟩ := bus_frame h ha
    refine Or.inl ⟨rfl, rfl, fun o hm => ?_⟩
    have := ho o hm
    cases o <;> first | rfl | cases this
  | orchestrator =>
    cases a with
    | orchestrate ok target =>
      cases orchestrate_turn h with
      | taken i e rest hor hq hd => exact Or.inr ⟨ok, target, i, e, rest, rfl, hor, hq, hd⟩
      | handshake hh pc hor hs =>
        obtain ⟨⟨_, _, _, _, _, _, _, _, _, rfl, -⟩, ho⟩ := handshakeStep_frame hs
        exact Or.inl ⟨rfl, rfl, fun o hm => Obs.not_taking_of_handshaking (ho o hm)⟩
      | received r pc hor hr =>
        obtain ⟨⟨_, _, _, _, _, rfl, -⟩, -, ho⟩ := receivedStep_frame hr
        exact Or.inl ⟨rfl, rfl, fun o hm => (Obs.not_of_receiving (ho o hm)).1⟩
      | closed id pc hor hc =>
        subst hc
        cases pc <;> exact Or.inl ⟨rfl, rfl, by simp⟩
    | _ => cases ha

theorem noted_step {remote : SocketAddr} {d : DeviceId} (h : step cfg s a = some (s', os))
    (hx : s'.remoteToDevice.lookup remote = some d) :
    s.remoteToDevice.lookup remote = some d ∨ ∃ i, .recorded i d ∈ os := by
  rcases maps_step h with ⟨hm, -⟩ | ⟨ok, target, i, e, rest, -, -, -, hd⟩
  · rw [hm] at hx
    exact Or.inl hx
  cases e with
  | connected r handle =>
    cases hd
    exact Or.inl hx
  | session r ev =>
    cases ev with
    | peerHandshake deviceId name caps token =>
      cases hd
      rcases HashMap.lookup_insert_some.mp hx with ⟨-, rfl⟩ | ⟨-, hx⟩
      · exact Or.inr ⟨i, List.mem_singleton_self _⟩
      · exact Or.inl hx
    | ponged rtt =>
      cases hd
      exact Or.inl hx
    | clipboardReceived clip =>
      simp only [dispatch] at hd
      split at hd <;> (cases hd; exact Or.inl hx)
    | closed reason =>
      cases hd
      exact Or.inl (HashMap.lookup_erase_some.mp hx).2

end

end Daemon

end PenguinSync
