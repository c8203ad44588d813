import PenguinSync.Daemon.Calls

/-!
# Every pin was asked for and confirmed

A pin goes back to one `start_pairing` call, one redemption of its token and
one accepting `confirm_pairing` after it. The orchestrator deals with one
handshake at a time, so the stretch from redemption to pin is no other pin's.
-/

namespace PenguinSync

open Lts

namespace Daemon

def Obs.isTokenSet : Obs → Prop
  | .tokenSet .. => True
  | _ => False

def Obs.isRedeemed : Obs → Prop
  | .redeemed .. => True
  | _ => False

def Obs.isPinned : Obs → Prop
  | .pinned _ => True
  | _ => False

/-- The token set at `k` was current, unexpired and unused when a handshake
claiming `id` presented its bytes at `j`. -/
structure Redemption (tr : List Obs) (k j : Nat) (id : DeviceId) (bytes : TokenBytes) (issuedAt at_ : Time) : Prop where
  issued : tr[k]? = some (.tokenSet bytes issuedAt)
  presented : tr[j]? = some (.redeemed id bytes at_)
  order : k < j
  unexpired : at_ - issuedAt < tokenTtl
  current : NoneBetween Obs.isTokenSet k j tr
  unused : NoneBetween Obs.isRedeemed k j tr

def Redeemed (tr : List Obs) (k j : Nat) (id : DeviceId) : Prop :=
  ∃ bytes issuedAt at_, Redemption tr k j id bytes issuedAt at_

/-- The pin at `i` goes back to the token set at `k`, its redemption at `j` and the confirmation at `l`. -/
structure Authorized (tr : List Obs) (k j l i : Nat) (id : DeviceId) : Prop where
  redeemed : Redeemed tr k j id
  confirmed : tr[l]? = some (.confirmed id true)
  after : j < l
  before : l < i
  alone : NoneBetween Obs.isPinned j i tr

def HandshakePc.redeemed : HandshakePc → Prop
  | .pairingRequested | .awaitConfirmation | .awaiting .. | .pin => True
  | _ => False

def HandshakePc.confirmed : HandshakePc → Prop
  | .awaiting _ _ (some true) | .pin => True
  | _ => False

/-- Since the current token was set no other was, and unless it was used nothing was redeemed. -/
def TokenInv (tr : List Obs) (token : Option PairingToken) : Prop :=
  ∀ t, token = some t → ∃ k, tr[k]? = some (.tokenSet t.bytes t.issuedAt) ∧
    NoneAfter Obs.isTokenSet k tr ∧ (t.redeemed = false → NoneAfter Obs.isRedeemed k tr)

/-- Between redemption and pin the trace holds what the pin will go back to. -/
def StageInv (tr : List Obs) (o : Orchestrator) : Prop :=
  ∀ h pc, o = .handshake h pc → HandshakePc.redeemed pc → ∃ k j, Redeemed tr k j h.deviceId ∧
    NoneAfter Obs.isPinned j tr ∧ (HandshakePc.confirmed pc → ∃ l, j < l ∧ tr[l]? = some (.confirmed h.deviceId true))

def PinsInv (tr : List Obs) : Prop := ∀ i d, tr[i]? = some (.pinned d) → ∃ k j l, Authorized tr k j l i d

/-- The channel the orchestrator waits on is registered for its own device only. -/
def WaitingInv (pending : HashMap DeviceId Nat) (o : Orchestrator) : Prop :=
  ∀ h ch deadline ans, o = .handshake h (.awaiting ch deadline ans) → ∀ d, pending.lookup d = some ch → d = h.deviceId

structure PairingInv (tr : List Obs) (s : Daemon) : Prop where
  token : TokenInv tr s.currentToken
  stage : StageInv tr s.orchestrator
  channels : ∀ d c, s.pendingConfirmations.lookup d = some c → c < s.nextChannel
  waiting : WaitingInv s.pendingConfirmations s.orchestrator
  pins : PinsInv tr

section
variable {cfg : Config} {s s' : Daemon} {tr os : List Obs} {k j l i : Nat} {id : DeviceId}

theorem Redemption.append {bytes : TokenBytes} {issuedAt at_ : Time} (h : Redemption tr k j id bytes issuedAt at_)
    (os : List Obs) : Redemption (tr ++ os) k j id bytes issuedAt at_ where
  issued := get_append h.issued os
  presented := get_append h.presented os
  order := h.order
  unexpired := h.unexpired
  current := h.current.append (Nat.le_of_lt (get_lt h.presented))
  unused := h.unused.append (Nat.le_of_lt (get_lt h.presented))

theorem Redeemed.append (h : Redeemed tr k j id) (os : List Obs) : Redeemed (tr ++ os) k j id := by
  obtain ⟨bytes, issuedAt, at_, h⟩ := h
  exact ⟨bytes, issuedAt, at_, h.append os⟩

theorem Authorized.append (h : Authorized tr k j l i id) (hi : i ≤ tr.length) (os : List Obs) :
    Authorized (tr ++ os) k j l i id where
  redeemed := h.redeemed.append os
  confirmed := get_append h.confirmed os
  after := h.after
  before := h.before
  alone := h.alone.append hi

theorem TokenInv.append {token : Option PairingToken} (hi : TokenInv tr token)
    (hos : ∀ o ∈ os, ¬ Obs.isTokenSet o ∧ ¬ Obs.isRedeemed o) : TokenInv (tr ++ os) token := by
  intro t ht
  obtain ⟨k, hk, hts, hr⟩ := hi t ht
  exact ⟨k, get_append hk os, hts.append fun o ho => (hos o ho).1,
    fun hf => (hr hf).append fun o ho => (hos o ho).2⟩

theorem StageInv.append {o : Orchestrator} (hi : StageInv tr o) (hos : ∀ o ∈ os, ¬ Obs.isPinned o) :
    StageInv (tr ++ os) o := by
  intro h pc ho hp
  obtain ⟨k, j, hr, hn, hc⟩ := hi h pc ho hp
  refine ⟨k, j, hr.append os, hn.append hos, fun hcf => ?_⟩
  obtain ⟨l, hl, hg⟩ := hc hcf
  exact ⟨l, hl, get_append hg os⟩

theorem PinsInv.append (hi : PinsInv tr) (hos : ∀ o ∈ os, ¬ Obs.isPinned o) : PinsInv (tr ++ os) := by
  intro i d h
  rcases get_of_append h with h | ⟨-, h⟩
  · obtain ⟨k, j, l, ha⟩ := hi i d h
    exact ⟨k, j, l, ha.append (Nat.le_of_lt (get_lt h)) os⟩
  · exact absurd trivial (hos _ h)

theorem not_pairing {o : Obs} (h : Obs.pairing o = false) :
    ¬ Obs.isTokenSet o ∧ ¬ Obs.isRedeemed o ∧ ¬ Obs.isPinned o := by
  cases o <;> first | exact ⟨id, id, id⟩ | cases h

theorem PairingInv.frame (hi : PairingInv tr s)
    (hos : ∀ o ∈ os, ¬ Obs.isTokenSet o ∧ ¬ Obs.isRedeemed o ∧ ¬ Obs.isPinned o)
    (ht : s'.currentToken = s.currentToken) (hp : s'.pendingConfirmations = s.pendingConfirmations)
    (hn : s'.nextChannel = s.nextChannel)
    (ho : s'.orchestrator = s.orchestrator ∨ ∀ h pc, s'.orchestrator = .handshake h pc → ¬ HandshakePc.redeemed pc) :
    PairingInv (tr ++ os) s' where
  token := by
    rw [ht]
    exact hi.token.append fun o h => ⟨(hos o h).1, (hos o h).2.1⟩
  stage := by
    rcases ho with ho | ho
    · rw [ho]
      exact hi.stage.append fun o h => (hos o h).2.2
    · intro h pc hh hr
      exact absurd hr (ho h pc hh)
  channels := by
    rw [hp, hn]
    exact hi.channels
  waiting := by
    rw [hp]
    rcases ho with ho | ho
    · rw [ho]
      exact hi.waiting
    · intro h ch deadline ans hh
      exact absurd trivial (ho h _ hh)
  pins := hi.pins.append fun o h => (hos o h).2.2

theorem PairingInv.answered {accept : Bool} {channel : Nat} (hi : PairingInv tr s)
    (hl : s.pendingConfirmations.lookup id = some channel) :
    PairingInv (tr ++ [.confirmed id accept]) { s with
      pendingConfirmations := s.pendingConfirmations.erase id
      orchestrator := answer channel accept s.orchestrator } := by
  have hos : ∀ o ∈ [Obs.confirmed id accept], ¬ Obs.isTokenSet o ∧ ¬ Obs.isRedeemed o ∧ ¬ Obs.isPinned o := by
    simp [Obs.isTokenSet, Obs.isRedeemed, Obs.isPinned]
  refine
    { token := hi.token.append fun o h => ⟨(hos o h).1, (hos o h).2.1⟩
      stage := ?_
      channels := fun d c hd => hi.channels d c (HashMap.lookup_erase_some.mp hd).2
      waiting := ?_
      pins := hi.pins.append fun o h => (hos o h).2.2 }
  · rcases answer_cases channel accept s.orchestrator with ha | ⟨h, deadline, ho, ha⟩
    · rw [ha]
      exact hi.stage.append fun o h => (hos o h).2.2
    · rw [ha]
      intro h' pc hh _
      cases hh
      obtain ⟨k, j, hr, hn, -⟩ := hi.stage h _ ho trivial
      have hid : id = h.deviceId := hi.waiting h channel deadline none ho id hl
      refine ⟨k, j, hr.append _, hn.append fun o h => (hos o h).2.2, fun hcf => ?_⟩
      cases accept with
      | false => cases hcf
      | true =>
        obtain ⟨_, _, _, hr⟩ := hr
        exact ⟨tr.length, get_lt hr.presented, by rw [get_snoc, hid]⟩
  · intro h ch deadline ans hh d hd
    have hd := (HashMap.lookup_erase_some.mp hd).2
    rcases answer_cases channel accept s.orchestrator with ha | ⟨h', deadline', ho, ha⟩
    · exact hi.waiting h ch deadline ans (ha ▸ hh) d hd
    · simp only [ha] at hh
      cases hh
      exact hi.waiting _ _ _ none ho d hd

theorem PairingInv.redeem {h : Handling} {presented : TokenBytes} {t t' : PairingToken} (hi : PairingInv tr s)
    (ht : s.currentToken = some t) (hr : t.redeem presented s.now = .ok t') :
    PairingInv (tr ++ [.redeemed h.deviceId presented s.now])
      (({ s with currentToken := some t' } : Daemon).handshake h .pairingRequested) := by
  obtain ⟨hunused, hexp, rfl, rfl⟩ := PairingToken.redeem_ok hr
  obtain ⟨k, hk, hts, hrd⟩ := hi.token t ht
  refine
    { token := ?_
      stage := ?_
      channels := hi.channels
      waiting := fun _ _ _ _ hh => by cases hh
      pins := hi.pins.append (by simp [Obs.isPinned]) }
  · intro t'' ht''
    cases ht''
    exact ⟨k, get_append hk _, hts.append (by simp [Obs.isTokenSet]), fun hf => by cases hf⟩
  · intro h' pc hh _
    cases hh
    refine ⟨k, tr.length, ⟨t.bytes, t.issuedAt, s.now, ?_⟩, noneAfter_last tr (by simp), fun hc => by cases hc⟩
    refine ⟨get_append hk _, get_snoc _ _ _, get_lt hk, ?_, hts.between, (hrd hunused).between⟩
    unfold PairingToken.isExpired at hexp
    simpa using hexp

theorem PairingInv.proceed {h : Handling} {pc pc' : HandshakePc} (hi : PairingInv tr s)
    (ho : s.orchestrator = .handshake h pc) (hp : HandshakePc.redeemed pc)
    (hc : HandshakePc.confirmed pc' → HandshakePc.confirmed pc)
    (hw : ∀ ch deadline ans, pc' ≠ .awaiting ch deadline ans)
    (hos : ∀ o ∈ os, ¬ Obs.isTokenSet o ∧ ¬ Obs.isRedeemed o ∧ ¬ Obs.isPinned o) :
    PairingInv (tr ++ os) (s.handshake h pc') where
  token := hi.token.append fun o h => ⟨(hos o h).1, (hos o h).2.1⟩
  stage := by
    intro h' pc'' hh _
    cases hh
    obtain ⟨k, j, hr, hn, hcf⟩ := hi.stage.append (fun o h => (hos o h).2.2) h pc ho hp
    exact ⟨k, j, hr, hn, fun hx => hcf (hc hx)⟩
  channels := hi.channels
  waiting := by
    intro h' ch deadline ans hh
    cases hh
    exact absurd rfl (hw _ _ _)
  pins := hi.pins.append fun o h => (hos o h).2.2

theorem PairingInv.register {h : Handling} {deadline : Time} (hi : PairingInv tr s)
    (ho : s.orchestrator = .handshake h .awaitConfirmation) :
    PairingInv tr (({ s with
        pendingConfirmations := s.pendingConfirmations.insert h.deviceId s.nextChannel
        nextChannel := s.nextChannel + 1 } : Daemon).handshake h (.awaiting s.nextChannel deadline none)) where
  token := hi.token
  stage := by
    intro h' pc hh _
    cases hh
    obtain ⟨k, j, hr, hn, -⟩ := hi.stage h _ ho trivial
    exact ⟨k, j, hr, hn, fun hx => by cases hx⟩
  channels := by
    intro d c hd
    rcases HashMap.lookup_insert_some.mp hd with ⟨-, rfl⟩ | ⟨-, hd⟩
    · exact Nat.lt_succ_self _
    · exact Nat.lt_succ_of_lt (hi.channels d c hd)
  waiting := by
    intro h' ch deadline ans hh d hd
    cases hh
    rcases HashMap.lookup_insert_some.mp hd with ⟨rfl, -⟩ | ⟨-, hd⟩
    · rfl
    · exact absurd (hi.channels d _ hd) (Nat.lt_irrefl _)
  pins := hi.pins

theorem PairingInv.pin {h : Handling} (hi : PairingInv tr s) (ho : s.orchestrator = .handshake h .pin) :
    PairingInv (tr ++ [.pinned h.deviceId])
      (({ s with trust := s.trust.pin h.deviceId } : Daemon).handshake h .closeWindow) where
  token := hi.token.append (by simp [Obs.isTokenSet, Obs.isRedeemed])
  stage := by
    intro h' pc hh hp
    cases hh
    cases hp
  channels := hi.channels
  waiting := fun _ _ _ _ hh => by cases hh
  pins := by
    intro i d hd
    rcases get_of_append hd with hd' | ⟨hlen, hm⟩
    · obtain ⟨k, j, l, ha⟩ := hi.pins i d hd'
      exact ⟨k, j, l, ha.append (Nat.le_of_lt (get_lt hd')) _⟩
    · rw [List.mem_singleton] at hm
      cases hm
      have hlt := get_lt hd
      rw [List.length_append, List.length_singleton] at hlt
      obtain rfl : i = tr.length := by omega
      obtain ⟨k, j, hr, hn, hc⟩ := hi.stage h _ ho trivial
      obtain ⟨l, hl, hg⟩ := hc trivial
      exact ⟨k, j, l, hr.append _, get_append hg _, hl, get_lt hg, hn.between⟩

theorem PairingInv.leave {o : Orchestrator} (hi : PairingInv tr s)
    (hos : ∀ o ∈ os, ¬ Obs.isTokenSet o ∧ ¬ Obs.isRedeemed o ∧ ¬ Obs.isPinned o)
    (ht : s'.currentToken = s.currentToken) (hp : s'.pendingConfirmations = s.pendingConfirmations)
    (hn : s'.nextChannel = s.nextChannel) (ho : s'.orchestrator = o)
    (hl : ∀ h pc, o = .handshake h pc → ¬ HandshakePc.redeemed pc) : PairingInv (tr ++ os) s' :=
  hi.frame hos ht hp hn (Or.inr (ho ▸ hl))

theorem PairingInv.handshake {h : Handling} {pc : HandshakePc} {ok : Bool} (hi : PairingInv tr s)
    (ho : s.orchestrator = .handshake h pc) (hs : s.handshakeStep h ok pc = some (s', os)) :
    PairingInv (tr ++ os) s' := by
  have hidle : ∀ h' pc', Orchestrator.idle = .handshake h' pc' → ¬ HandshakePc.redeemed pc' := by
    intro _ _ hh
    cases hh
  have hto : ∀ pc', ¬ HandshakePc.redeemed pc' →
      ∀ h' pc'', Orchestrator.handshake h pc' = .handshake h' pc'' → ¬ HandshakePc.redeemed pc'' := by
    intro pc' hn h' pc'' hh
    cases hh
    exact hn
  cases pc with
  | isPaired =>
    simp only [handshakeStep] at hs
    split at hs
    · cases hs; exact hi.leave (by simp) rfl rfl rfl rfl (hto _ id)
    · split at hs
      · cases hs; exact hi.leave (by simp) rfl rfl rfl rfl hidle
      · cases hs; exact hi.leave (by simp) rfl rfl rfl rfl (hto _ id)
  | redeem presented =>
    simp only [handshakeStep] at hs
    split at hs
    · cases hs; exact hi.leave (by simp) rfl rfl rfl rfl hidle
    · rename_i t ht
      split at hs
      · rename_i t' hr
        cases hs
        exact hi.redeem ht hr
      · cases hs; exact hi.leave (by simp) rfl rfl rfl rfl hidle
  | pairingRequested =>
    cases hs
    exact hi.proceed ho trivial id (by simp) (by simp [Obs.isTokenSet, Obs.isRedeemed, Obs.isPinned])
  | awaitConfirmation =>
    cases hs
    rw [List.append_nil]
    exact hi.register ho
  | awaiting ch deadline ans =>
    cases ans with
    | none =>
      simp only [handshakeStep] at hs
      split at hs
      · cases hs; exact hi.leave (by simp) rfl rfl rfl rfl hidle
      · cases hs
    | some accept =>
      cases accept with
      | false => cases hs; exact hi.leave (by simp) rfl rfl rfl rfl hidle
      | true => cases hs; exact hi.proceed ho trivial (fun _ => trivial) (by simp) (by simp)
  | pin =>
    cases hs
    exact hi.pin ho
  | closeWindow => cases hs; exact hi.leave (by simp) rfl rfl rfl rfl (hto _ id)
  | upsert => cases hs; exact hi.leave (by simp) rfl rfl rfl rfl (hto _ id)
  | persist =>
    cases hs
    refine hi.leave (by simp) ?_ ?_ ?_ rfl (hto _ id) <;> (cases ok <;> rfl)
  | ensureObject =>
    cases hs
    refine hi.leave (by simp) rfl rfl rfl rfl (hto _ ?_)
    split <;> exact id
  | createObject => cases hs; exact hi.leave (by simp) rfl rfl rfl rfl (hto _ id)
  | setConnected => cases hs; exact hi.leave (by simp) rfl rfl rfl rfl (hto _ id)
  | promote =>
    simp only [handshakeStep] at hs
    split at hs
    · cases hs
      exact hi.leave (by simp [Obs.isTokenSet, Obs.isRedeemed, Obs.isPinned]) rfl rfl rfl rfl hidle
    · cases hs; exact hi.leave (by simp) rfl rfl rfl rfl hidle

theorem PairingInv.step (hi : PairingInv tr s) (hm : PairingMove s s' os) : PairingInv (tr ++ os) s' := by
  cases hm with
  | other hsame ho hos =>
    refine hi.frame (fun o h => not_pairing (hos o h)) hsame.currentToken hsame.pendingConfirmations
      hsame.nextChannel ?_
    rcases ho with ho | ho
    · exact Or.inl ho
    · refine Or.inr fun h pc hh hr => ?_
      rw [hh] at ho
      cases pc <;> first | exact ho | exact hr
  | tokenSet random at_ rest qr fp hs =>
    subst hs
    refine { hi with
      token := ?_
      stage := hi.stage.append (by simp [Obs.isPinned])
      pins := hi.pins.append (by simp [Obs.isPinned]) }
    intro t ht
    cases ht
    exact ⟨tr.length, get_snoc _ _ _, noneAfter_last tr (by simp [Obs.isTokenSet]),
      fun _ => noneAfter_last tr (by simp [Obs.isRedeemed])⟩
  | unknown id accept hl hs =>
    subst hs
    exact hi.frame (by simp [Obs.isTokenSet, Obs.isRedeemed, Obs.isPinned]) rfl rfl rfl (Or.inl rfl)
  | answered id accept channel hl hs =>
    subst hs
    exact hi.answered hl
  | unpairCalled id hs =>
    subst hs
    exact hi.frame (by simp [Obs.isTokenSet, Obs.isRedeemed, Obs.isPinned]) rfl rfl rfl (Or.inl rfl)
  | unpairStep k ok hs =>
    unfold unpairStep at hs
    split at hs
    · cases hs
    all_goals
      cases hs
      refine hi.frame (by simp [Obs.isTokenSet, Obs.isRedeemed, Obs.isPinned]) ?_ ?_ ?_ (Or.inl ?_) <;>
        first | rfl | (cases ok <;> rfl)
  | handshake h pc ok ho hs => exact hi.handshake ho hs

variable {file : Option PersistedState} {clipboard : Content}

theorem run_pairing {C : List Obs → Daemon → Act → Prop} (h : Run (system cfg file clipboard) C tr s) : PairingInv tr s := by
  refine h.invariant (fun s h0 => ?_) (fun tr s a s' os _ hi _ hs => hi.step (step_pairing hs))
  rw [h0]
  exact
    { token := fun t ht => by cases ht
      stage := fun h pc hh => by cases hh
      channels := fun d c hd => by simp [initial] at hd
      waiting := fun h ch deadline ans hh => by cases hh
      pins := fun i d hd => by simp at hd }

/-! ## The paired set -/

/-- Paired since start-up, or since a pin. -/
def Trusted (file : Option PersistedState) (tr : List Obs) (id : DeviceId) : Prop :=
  id ∈ (PersistedState.load file).deviceIds ∧ (∀ o ∈ tr, ¬ Obs.unpins id o) ∨
    Since (· = Obs.pinned id) (Obs.unpins id) tr

theorem trusted_append_of_ne (hp : .pinned id ∉ os) (hu : ∀ o ∈ os, ¬ Obs.unpins id o) :
    Trusted file (tr ++ os) id ↔ Trusted file tr id := by
  have hs : ¬ Since (· = Obs.pinned id) (Obs.unpins id) os := by
    rintro ⟨pre, o, post, rfl, rfl, -⟩
    exact hp (by simp)
  unfold Trusted
  rw [since_append]
  simp only [hs, false_or, List.mem_append, or_imp, forall_and]
  constructor
  · rintro (⟨hd, ht, -⟩ | ⟨ht, -⟩)
    · exact Or.inl ⟨hd, ht⟩
    · exact Or.inr ht
  · rintro (⟨hd, ht⟩ | ht)
    · exact Or.inl ⟨hd, ht, hu⟩
    · exact Or.inr ⟨ht, hu⟩

theorem trusted_snoc_pinned : Trusted file (tr ++ [.pinned id]) id :=
  Or.inr (since_append.mpr (Or.inl (since_singleton.mpr rfl)))

theorem not_trusted_snoc_unpinned {call : Nat} : ¬ Trusted file (tr ++ [.unpinned call id]) id := by
  rintro (⟨-, h⟩ | h)
  · exact h (.unpinned call id) (by simp) rfl
  · rcases since_append.mp h with h | ⟨-, h⟩
    · have := since_singleton.mp h
      cases this
    · exact h _ (List.mem_singleton_self _) rfl

theorem trusted_step (hi : ∀ d, d ∈ s.trust.paired ↔ Trusted file tr d) (hm : PairedMove s s' os) :
    ∀ d, d ∈ s'.trust.paired ↔ Trusted file (tr ++ os) d := by
  intro d
  cases hm with
  | same hp hpin hun => rw [hp, hi d, trusted_append_of_ne (hpin d) (hun d)]
  | pinned h ho hp =>
    rw [hp, Finset.mem_insert]
    by_cases hd : d = h.deviceId
    · subst hd
      simpa using trusted_snoc_pinned
    · rw [trusted_append_of_ne (by simp [hd]) (by simp [Obs.unpins]), ← hi d]
      simp [hd]
  | unpinned k call id hk hp =>
    rw [hp, Finset.mem_erase]
    by_cases hd : d = id
    · subst hd
      simpa using not_trusted_snoc_unpinned
    · rw [trusted_append_of_ne (by simp) (by simp [Obs.unpins, Ne.symm hd]), ← hi d]
      simp [hd]

theorem paired_iff {C : List Obs → Daemon → Act → Prop} (h : Run (system cfg file clipboard) C tr s) :
    ∀ d, d ∈ s.trust.paired ↔ Trusted file tr d := by
  refine h.invariant (I := fun tr s => ∀ d, d ∈ s.trust.paired ↔ Trusted file tr d) (fun s h0 d => ?_)
    (fun tr s a s' os _ hi _ hs => trusted_step hi (step_paired hs))
  rw [h0]
  simp [initial, TrustStore.new, Trusted, not_since_nil]

/-! ## One call, one pin -/

/-- Two pins have neither their start nor their confirmation in common. -/
theorem authorized_inj {i i' k j l k' j' l' : Nat} {d d' : DeviceId} (ha : Authorized tr k j l i d)
    (ha' : Authorized tr k' j' l' i' d') (hi : tr[i]? = some (.pinned d)) (hlt : i < i') : k ≠ k' ∧ l ≠ l' := by
  obtain ⟨_, _, _, hr⟩ := ha.redeemed
  obtain ⟨_, _, _, hr'⟩ := ha'.redeemed
  have h1 := ha.after
  have h2 := ha.before
  have h3 := ha'.after
  have h4 := hr.order
  -- the later pin's redemption stands after the earlier pin
  have hij : i < j' := by
    rcases Nat.lt_trichotomy i j' with h | h | h
    · exact h
    · subst h
      have := hi.symm.trans hr'.presented
      cases this
    · exact absurd trivial (ha'.alone i _ h hlt hi)
  constructor
  · intro hk
    subst hk
    exact hr'.unused j _ h4 (by omega) hr.presented trivial
  · intro hl
    omega

/-- Whatever the daemon trusts it loaded or pinned, and every pin answers to a
start and a confirmation of its own. -/
theorem run_pins_authorized (h : Run (system cfg file clipboard) always tr s) :
    (∀ d, d ∈ s.trust.paired → Trusted file tr d) ∧
      ∃ start confirm : Nat → Nat,
        (∀ i d, tr[i]? = some (.pinned d) → ∃ j, Authorized tr (start i) j (confirm i) i d) ∧
        Set.InjOn start {i | ∃ d, tr[i]? = some (.pinned d)} ∧
        Set.InjOn confirm {i | ∃ d, tr[i]? = some (.pinned d)} := by
  classical
  have hpins := (run_pairing h).pins
  have hchoice : ∀ i, ∃ k l, ∀ d, tr[i]? = some (.pinned d) → ∃ j, Authorized tr k j l i d := by
    intro i
    by_cases hi : ∃ d, tr[i]? = some (.pinned d)
    · obtain ⟨d, hd⟩ := hi
      obtain ⟨k, j, l, ha⟩ := hpins i d hd
      refine ⟨k, l, fun d' hd' => ⟨j, ?_⟩⟩
      have := hd.symm.trans hd'
      cases this
      exact ha
    · exact ⟨0, 0, fun d hd => absurd ⟨d, hd⟩ hi⟩
  choose start confirm hall using hchoice
  have hne : ∀ i i' d d', tr[i]? = some (.pinned d) → tr[i']? = some (.pinned d') → i ≠ i' →
      start i ≠ start i' ∧ confirm i ≠ confirm i' := by
    intro i i' d d' hi hi' hii
    obtain ⟨j, ha⟩ := hall i d hi
    obtain ⟨j', ha'⟩ := hall i' d' hi'
    rcases Nat.lt_or_gt_of_ne hii with hlt | hlt
    · exact authorized_inj ha ha' hi hlt
    · obtain ⟨h1, h2⟩ := authorized_inj ha' ha hi' hlt
      exact ⟨h1.symm, h2.symm⟩
  refine ⟨fun d hd => (paired_iff h d).mp hd, start, confirm, fun i d hi => hall i d hi, ?_, ?_⟩
  · rintro i ⟨d, hi⟩ i' ⟨d', hi'⟩ he
    by_contra hii
    exact (hne i i' d d' hi hi' hii).1 he
  · rintro i ⟨d, hi⟩ i' ⟨d', hi'⟩ he
    by_contra hii
    exact (hne i i' d d' hi hi' hii).2 he

end

open Sample in
theorem pair_enabled :
    (exec (system cfg none empty) anyway [] (initial none empty) (pair 0 (addr 2) phoneKey)).isSome = true := by
  decide +kernel

open Sample in
theorem run_pins_authorized_phone :
    let r := (exec (system cfg none empty) anyway [] (initial none empty) (pair 0 (addr 2) phoneKey)).get pair_enabled
    phone ∈ r.2.trust.paired ∧ ∃ k j l, Authorized r.1 k j l 8 phone := by
  obtain ⟨-, start, confirm, hall, -⟩ := run_pins_authorized (run_of_anyway rfl pair_enabled)
  obtain ⟨j, ha⟩ := hall 8 phone (by decide +kernel)
  exact ⟨by decide +kernel, start 8, j, confirm 8, ha⟩

end Daemon

end PenguinSync
