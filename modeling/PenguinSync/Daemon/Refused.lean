import PenguinSync.Daemon.Authorization

/-!
# Refused handshakes

`handle_handshake` returns early where it refuses. The event that announced the
device was recorded before that, and nothing on the way out takes it back or
closes the session, so what a refused handshake leaves behind stays until the
peer hangs up. Without a refusal every handshake taken is found paired or is
pinned before the next one.
-/

namespace PenguinSync

open Lts

namespace Daemon

def refuses (s : Daemon) (h : Handling) : HandshakePc → Bool
  | .isPaired => !s.trust.isPaired h.deviceId && h.pairingToken.isNone
  | .redeem presented =>
    match s.currentToken with
    | none => true
    | some t =>
      match t.redeem presented s.now with
      | .ok _ => false
      | .error _ => true
  | .awaiting _ _ (some accept) => !accept
  | .awaiting _ deadline none => deadline ≤ s.now
  | _ => false

def refusing (s : Daemon) : Act → Bool
  | .orchestrate .. =>
    match s.orchestrator with
    | .handshake h pc => s.refuses h pc
    | _ => false
  | _ => false

def HandshakePc.undecided : HandshakePc → Bool
  | .isPaired | .redeem _ | .pairingRequested | .awaitConfirmation | .awaiting .. | .pin => true
  | _ => false

def Obs.isRecorded : Obs → Prop
  | .recorded .. => True
  | _ => False

/-- The device of the handshake taken at `k` was trusted before the next was taken. -/
def Vetted (file : Option PersistedState) (tr : List Obs) (k : Nat) (d : DeviceId) : Prop :=
  ∃ m, k < m ∧ m ≤ tr.length ∧ NoneBetween Obs.isRecorded k m tr ∧ Trusted file (tr.take m) d

/-- The handshake of session `i` taken at `k` is still being decided. -/
def Undecided (tr : List Obs) (o : Orchestrator) (k i : Nat) (d : DeviceId) : Prop :=
  NoneAfter Obs.isRecorded k tr ∧
    ∃ h pc, o = .handshake h pc ∧ h.session = i ∧ h.deviceId = d ∧ HandshakePc.undecided pc = true

/-- The event about to be taken replaces or drops what is noted under `remote`. -/
def renotes (s : Daemon) (remote : SocketAddr) : Act → Bool
  | .orchestrate .. =>
    match s.orchestrator, s.queue with
    | .idle, (_, .session r (.peerHandshake ..)) :: _ => r = remote
    | .idle, (_, .session r (.closed _)) :: _ => r = remote
    | _, _ => false
  | _ => false

section
variable {cfg : Config} {s s' : Daemon} {tr os : List Obs} {a : Act} {d : DeviceId} {remote : SocketAddr}

/-! ## What is noted of a handshake -/

theorem lookup_kept (h : step cfg s a = some (s', os)) (hn : s.renotes remote a = false)
    (hl : s.remoteToDevice.lookup remote = some d) : s'.remoteToDevice.lookup remote = some d := by
  rcases maps_step h with ⟨hm, -⟩ | ⟨ok, target, i, e, rest, rfl, hor, hq, hd⟩
  · rw [hm]
    exact hl
  unfold renotes at hn
  cases e with
  | connected r handle =>
    cases hd
    exact hl
  | session r ev =>
    cases ev with
    | peerHandshake deviceId name caps token =>
      have hne : remote ≠ r := by
        simp only [hor, hq, decide_eq_false_iff_not] at hn
        exact fun he => hn he.symm
      cases hd
      exact HashMap.lookup_insert_some.mpr (Or.inr ⟨hne, hl⟩)
    | ponged rtt =>
      cases hd
      exact hl
    | clipboardReceived clip =>
      simp only [dispatch] at hd
      split at hd <;> (cases hd; exact hl)
    | closed reason =>
      have hne : remote ≠ r := by
        simp only [hor, hq, decide_eq_false_iff_not] at hn
        exact fun he => hn he.symm
      cases hd
      exact HashMap.lookup_erase_some.mpr ⟨hne, hl⟩

theorem renotes_of_busy {h : Handling} (hx : Orchestrator.handling? s.orchestrator = some h) :
    s.renotes remote a = false := by
  cases a with
  | orchestrate ok target =>
    unfold renotes
    cases ho : s.orchestrator <;> first | rfl | (rw [ho] at hx; cases hx)
  | _ => rfl

/-- The id in a handshake at hand is the one noted under its address. -/
def HandlingNoted (s : Daemon) : Prop :=
  ∀ h, Orchestrator.handling? s.orchestrator = some h → s.remoteToDevice.lookup h.remote = some h.deviceId

theorem HandlingNoted.step (hi : HandlingNoted s) (h : step cfg s a = some (s', os)) : HandlingNoted s' := by
  intro hh hx
  rcases handling_step h hx with hx' | hrec
  · exact lookup_kept h (renotes_of_busy hx') (hi hh hx')
  · obtain ⟨ok, target, r, name, caps, token, rest, rfl, hor, hq⟩ := recorded_step h hrec
    simp only [Daemon.step, orchestrate, hor, hq, dispatch, Option.some.injEq, Prod.mk.injEq] at h
    obtain ⟨rfl, -⟩ := h
    have hr : r = hh.remote := congrArg Handling.remote (Option.some.inj hx)
    exact HashMap.lookup_insert_some.mpr (Or.inl ⟨hr.symm, rfl⟩)

variable {file : Option PersistedState} {clipboard : Content} {C : List Obs → Daemon → Act → Prop}

theorem run_handlingNoted (h : Run (system cfg file clipboard) C tr s) : HandlingNoted s := by
  refine h.invariant (I := fun _ s => HandlingNoted s) (fun s h0 => ?_) (fun _ _ _ _ _ _ hi _ hs => hi.step hs)
  rw [h0]
  intro hh hx
  cases hx

/-! ## What becomes of its session -/

theorem stage_of_cores {i : Nat} {c : Connection} (hc : s'.cores = s.cores) (hi : s.connections[i]? = some c) :
    ∃ c', s'.connections[i]? = some c' ∧ c'.session.stage = c.session.stage := by
  have h := congrArg (·[i]?) hc
  simp only [cores, List.getElem?_map, hi, Option.map_some] at h
  obtain ⟨c', hc', he⟩ := Option.map_eq_some_iff.mp h
  have hs : c'.core.session.stage = c.core.session.stage := congrArg (fun c => c.session.stage) he
  exact ⟨c', hc', hs⟩

/-- A session ends by its own driving task only. -/
theorem stage_kept {i : Nat} {c : Connection} (h : step cfg s a = some (s', os)) (hn : ∀ ca, a ≠ .connection i ca)
    (hi : s.connections[i]? = some c) :
    ∃ c', s'.connections[i]? = some c' ∧ c'.session.stage = c.session.stage := by
  cases ha : a.task with
  | net =>
    cases a with
    | advance dt =>
      cases h
      exact ⟨c, hi, rfl⟩
    | accept remote spki =>
      simp only [step, accept, Option.ite_none_right_eq_some, Option.some.injEq, Prod.mk.injEq] at h
      obtain ⟨-, rfl, rfl⟩ := h
      exact ⟨c, get_append hi _, rfl⟩
    | connection j ca =>
      have hne : j ≠ i := fun he => hn ca (by rw [he])
      simp only [step, connectionStep] at h
      split at h
      · cases h
      · split at h
        · cases h
        · cases h
          exact ⟨c, by rw [List.getElem?_set_ne hne, hi], rfl⟩
    | drain j =>
      simp only [step, drain] at h
      split at h
      · cases h
      · rename_i c' hj
        split at h
        · cases h
        · cases h
          by_cases hji : j = i
          · subst hji
            rw [hi, Option.some.injEq] at hj
            subst hj
            exact ⟨_, List.getElem?_set_self (get_lt hi), rfl⟩
          · exact ⟨c, by rw [List.getElem?_set_ne hji, hi], rfl⟩
    | _ => cases ha
  | clipboard => exact stage_of_cores (clipboard_frame h ha).2.1 hi
  | bus =>
    obtain ⟨⟨_, _, _, _, _, _, _, _, _, _, _, rfl, -⟩, -⟩ := bus_frame h ha
    exact ⟨c, hi, rfl⟩
  | orchestrator =>
    cases a with
    | orchestrate ok target =>
      cases orchestrate_turn h with
      | taken j e rest _ _ hd =>
        obtain ⟨⟨_, _, _, rfl⟩, -⟩ := dispatch_frame hd
        exact ⟨c, hi, rfl⟩
      | handshake hh pc _ hs =>
        obtain ⟨⟨_, _, _, _, _, _, _, _, _, rfl, -⟩, -⟩ := handshakeStep_frame hs
        exact ⟨c, hi, rfl⟩
      | received r pc _ hr => exact stage_of_cores (receivedStep_frame hr).2.1 hi
      | closed id pc _ hc =>
        subst hc
        cases pc <;> exact ⟨c, hi, rfl⟩
    | _ => cases ha

/-! ## Decisions -/

theorem Vetted.append {k : Nat} (h : Vetted file tr k d) (os : List Obs) : Vetted file (tr ++ os) k d := by
  obtain ⟨m, hk, hm, hn, ht⟩ := h
  have hl : m ≤ (tr ++ os).length := by
    rw [List.length_append]
    omega
  refine ⟨m, hk, hl, hn.append hm, ?_⟩
  rw [List.take_append_of_le_length hm]
  exact ht

theorem Vetted.of_trusted {k : Nat} (hk : k < tr.length) (hn : NoneAfter Obs.isRecorded k tr) (ht : Trusted file tr d) :
    Vetted file tr k d := by
  refine ⟨tr.length, hk, Nat.le_refl _, hn, ?_⟩
  rw [List.take_length]
  exact ht

theorem recorded_idle {i : Nat} (h : step cfg s a = some (s', os)) (ho : .recorded i d ∈ os) :
    s.orchestrator = .idle ∧ os = [.recorded i d] ∧ ∃ hh, s'.orchestrator = .handshake hh .isPaired ∧
      hh.session = i ∧ hh.deviceId = d := by
  obtain ⟨ok, target, r, name, caps, token, rest, rfl, hor, hq⟩ := recorded_step h ho
  simp only [Daemon.step, orchestrate, hor, hq, dispatch, Option.some.injEq, Prod.mk.injEq] at h
  obtain ⟨rfl, rfl⟩ := h
  exact ⟨hor, rfl, _, rfl, rfl, rfl⟩

theorem not_recorded_of_busy {hh : Handling} {pc : HandshakePc} (h : step cfg s a = some (s', os))
    (ho : s.orchestrator = .handshake hh pc) : ∀ o ∈ os, ¬ Obs.isRecorded o := by
  intro o hm hr
  unfold Obs.isRecorded at hr
  split at hr
  · rw [(recorded_idle h hm).1] at ho
    cases ho
  · exact hr

/-- One step of a handshake that does not refuse: it goes on undecided, or its device is trusted now. -/
theorem HandshakeMove.decides {hh : Handling} {pc : HandshakePc} {ok : Bool} (hm : HandshakeMove s hh ok pc s' os)
    (hr : s.refuses hh pc = false) (hu : HandshakePc.undecided pc = true) :
    (∃ pc', s'.orchestrator = .handshake hh pc' ∧ HandshakePc.undecided pc' = true) ∨
      hh.deviceId ∈ s'.trust.paired := by
  cases hm with
  | known hp => exact Or.inr hp
  | tokenless hp ht => simp [refuses, TrustStore.isPaired, hp, ht] at hr
  | unissued presented ht => simp [refuses, ht] at hr
  | unredeemed presented t e ht he => simp [refuses, ht, he] at hr
  | rejected ch deadline => simp [refuses] at hr
  | timedOut ch deadline hd => simp [refuses, hd] at hr
  | presents presented _ _ => exact Or.inl ⟨_, rfl, rfl⟩
  | redeems presented t t' _ _ => exact Or.inl ⟨_, rfl, rfl⟩
  | asks => exact Or.inl ⟨_, rfl, rfl⟩
  | registers => exact Or.inl ⟨_, rfl, rfl⟩
  | confirmed ch deadline => exact Or.inl ⟨_, rfl, rfl⟩
  | pins => exact Or.inr (Finset.mem_insert_self ..)
  | _ => cases hu

def VetInv (file : Option PersistedState) (tr : List Obs) (s : Daemon) : Prop :=
  ∀ k i d, tr[k]? = some (.recorded i d) → Vetted file tr k d ∨ Undecided tr s.orchestrator k i d

theorem VetInv.step (hi : VetInv file tr s) (hp : ∀ d, d ∈ s'.trust.paired ↔ Trusted file (tr ++ os) d)
    (hr : s.refusing a = false) (h : step cfg s a = some (s', os)) : VetInv file (tr ++ os) s' := by
  intro k i d hk
  rcases get_of_append hk with hk' | ⟨hk', hm⟩
  · rcases hi k i d hk' with hv | ⟨hn, hh, pc, ho, rfl, rfl, hu⟩
    · exact Or.inl (hv.append os)
    have hn' : NoneAfter Obs.isRecorded k (tr ++ os) := hn.append (not_recorded_of_busy h ho)
    cases handling_move h ho with
    | turn ok target hs =>
      have hr' : s.refuses hh pc = false := by
        simp only [refusing, ho] at hr
        exact hr
      rcases (handshakeStep_move hs).decides hr' hu with ⟨pc', ho', hu'⟩ | hd
      · exact Or.inr ⟨hn', hh, pc', ho', rfl, rfl, hu'⟩
      · exact Or.inl (.of_trusted (get_lt hk) hn' ((hp _).mp hd))
    | kept _ ho' => exact Or.inr ⟨hn', hh, pc, ho', rfl, rfl, hu⟩
    | answered ch deadline hex id accept _ _ hs =>
      subst hs
      exact Or.inr ⟨hn', hh, _, rfl, rfl, rfl, rfl⟩
  · obtain ⟨-, rfl, hh, ho', hi', hd'⟩ := recorded_idle h hm
    have hk : k = tr.length := by
      have := get_lt hk
      rw [List.length_append, List.length_singleton] at this
      omega
    subst hk
    exact Or.inr ⟨noneAfter_last tr (by simp), hh, _, ho', hi', hd', rfl⟩

theorem run_vetted (h : Run (system cfg file clipboard) C tr s) (hC : ∀ tr s a, C tr s a → s.refusing a = false) :
    VetInv file tr s := by
  refine h.invariant (fun s h0 k i d hk => ?_) (fun tr s a s' os hrun hi hc hs => ?_)
  · simp at hk
  · exact hi.step (paired_iff (.step hrun hc hs)) (hC _ _ _ hc) hs

/-- The session of `h` and the id noted for it stay as they are at `s`, unless
its peer does something or its address comes up again. -/
structure Lingers (cfg : Config) (file : Option PersistedState) (clipboard : Content) (tr : List Obs) (s : Daemon)
    (h : Handling) : Prop where
  noted : ∀ tr' s', Path (system cfg file clipboard) (fun _ s a => s.renotes h.remote a = false) tr s tr' s' →
    s'.remoteToDevice.lookup h.remote = some h.deviceId
  unclosed : ∀ tr' s', Path (system cfg file clipboard) (fun _ _ a => ∀ ca, a ≠ .connection h.session ca) tr s tr' s' →
    ∀ c, s.connections[h.session]? = some c →
      ∃ c', s'.connections[h.session]? = some c' ∧ c'.session.stage = c.session.stage

theorem lingers {hh : Handling} (hl : s.remoteToDevice.lookup hh.remote = some hh.deviceId) :
    Lingers cfg file clipboard tr s hh where
  noted tr' s' hp :=
    hp.invariant (I := fun _ s => s.remoteToDevice.lookup hh.remote = some hh.deviceId) hl
      fun _ _ _ _ _ hi hc hs => lookup_kept hs hc hi
  unclosed tr' s' hp c hc := by
    refine hp.invariant (I := fun _ s => ∃ c', s.connections[hh.session]? = some c' ∧ c'.session.stage = c.session.stage)
      ⟨c, hc, rfl⟩ fun _ _ _ _ _ hi hn hs => ?_
    obtain ⟨c', hc', hst⟩ := hi
    obtain ⟨c'', hc'', hst'⟩ := stage_kept hs hn hc'
    exact ⟨c'', hc'', hst'.trans hst⟩

theorem HandshakeMove.refused {hh : Handling} {pc : HandshakePc} {ok : Bool} (hm : HandshakeMove s hh ok pc s' os)
    (hr : s.refuses hh pc = true) : s' = s.idle := by
  cases hm with
  | known hp => simp [refuses, TrustStore.isPaired, hp] at hr
  | presents presented hp ht => simp [refuses, ht] at hr
  | redeems presented t t' ht hok => simp [refuses, ht, hok] at hr
  | confirmed ch deadline => simp [refuses] at hr
  | tokenless _ _ => rfl
  | unissued _ _ => rfl
  | unredeemed _ _ _ _ _ => rfl
  | rejected _ _ => rfl
  | timedOut _ _ _ => rfl
  | _ => cases hr

/-- Without a refusal every handshake taken is vetted or still being decided;
a refused one leaves its session open and its entries in place. -/
theorem run_refused (h : Run (system cfg file clipboard) C tr s) :
    ((∀ tr s a, C tr s a → s.refusing a = false) → VetInv file tr s) ∧
      ∀ hh pc ok target s' os, s.orchestrator = .handshake hh pc → s.refuses hh pc = true →
        step cfg s (.orchestrate ok target) = some (s', os) →
        s'.orchestrator = .idle ∧ s'.connections = s.connections ∧ s'.remoteHandles = s.remoteHandles ∧
          Lingers cfg file clipboard (tr ++ os) s' hh := by
  refine ⟨run_vetted h, fun hh pc ok target s' os ho hr hs => ?_⟩
  rw [step_handshake ho] at hs
  have hs' : s' = s.idle := (handshakeStep_move hs).refused hr
  have hl : s.remoteToDevice.lookup hh.remote = some hh.deviceId :=
    run_handlingNoted h hh (by rw [ho]; rfl)
  subst hs'
  exact ⟨rfl, rfl, rfl, lingers hl⟩

end

/-- A phone that connects while the pairing window is open presents no token. -/
def Sample.tokenless : List Act :=
  Sample.mint ++ Sample.connect 0 (Sample.addr 2) Sample.phoneKey ++
    Sample.greet 0 Sample.phone none ++ Sample.turns 2

open Sample in
theorem tokenless_enabled :
    (exec (system cfg none empty) anyway [] (initial none empty) tokenless).isSome = true := by
  decide +kernel

open Sample in
/-- Its handshake is over and done with, and its session stays. -/
theorem tokenless_stays : ∃ tr s, Run (system cfg none empty) always tr s ∧ s.orchestrator = .idle ∧
    .recorded 0 phone ∈ tr ∧ phone ∉ s.trust.paired ∧ .pinned phone ∉ tr ∧
    s.connections[0]?.map (·.session.stage) = some .loop ∧ s.remoteHandles.lookup (addr 2) = some 0 ∧
    s.remoteToDevice.lookup (addr 2) = some phone := by
  refine ⟨_, _, run_of_anyway rfl tokenless_enabled, ?_, ?_⟩
  · rfl
  · decide +kernel

open Sample in
theorem paired_enabled : (exec (system cfg none empty) (fun _ s a => !s.refusing a) [] (initial none empty)
    (pair 0 (addr 2) phoneKey)).isSome = true := by
  decide +kernel

open Sample in
theorem run_refused_paired :
    let r := (exec (system cfg none empty) (fun _ s a => !s.refusing a) [] (initial none empty)
      (pair 0 (addr 2) phoneKey)).get paired_enabled
    .recorded 0 phone ∈ r.1 ∧ VetInv none r.1 r.2 := by
  refine ⟨by decide +kernel, (run_refused (run_of_exec (C := fun _ s a => s.refusing a = false) (fun _ s a h => ?_) rfl
    paired_enabled)).1 fun _ _ _ h => h⟩
  simpa using h

end Daemon

end PenguinSync
