import PenguinSync.Daemon.Frames

/-!
# The orchestrator gets on

It waits for nothing but an event, or an answer it has asked for and does not
wait for longer than the timeout. An event keeps it for a number of its own
steps that does not depend on what the other tasks do meanwhile.
-/

namespace PenguinSync

open Lts

namespace Daemon

def HandshakePc.left : HandshakePc → Nat
  | .isPaired => 14
  | .redeem _ => 13
  | .pairingRequested => 12
  | .awaitConfirmation => 11
  | .awaiting _ _ none => 10
  | .awaiting _ _ (some _) => 9
  | .pin => 8
  | .closeWindow => 7
  | .upsert => 6
  | .persist => 5
  | .ensureObject => 4
  | .createObject => 3
  | .setConnected => 2
  | .promote => 1

def ReceivedPc.left (peers : Nat) : ReceivedPc → Nat
  | .isPaired => peers + 5
  | .shouldBroadcast => peers + 4
  | .write => peers + 3
  | .handles => peers + 2
  | .relay rest => rest.keys.card + 1

def ClosedPc.left : ClosedPc → Nat
  | .disconnect => 2
  | .setConnected => 1

def Orchestrator.left (peers : Nat) : Orchestrator → Nat
  | .idle => 0
  | .handshake _ pc => HandshakePc.left pc
  | .received _ pc => ReceivedPc.left peers pc
  | .closed _ pc => ClosedPc.left pc

def left (s : Daemon) : Nat := Orchestrator.left s.connectedDevices.keys.card s.orchestrator

def Act.orchestrates : Act → Bool
  | .orchestrate .. => true
  | _ => false

section
variable {cfg : Config} {s s' : Daemon} {a : Act} {os : List Obs} {ok : Bool} {target : DeviceId}

theorem card_erase_le (m : HashMap DeviceId Nat) (d : DeviceId) : (m.erase d).keys.card ≤ m.keys.card := by
  rw [Finmap.keys_erase]
  exact Finset.card_erase_le

theorem card_erase_lt {m : HashMap DeviceId Nat} {d : DeviceId} {i : Nat} (h : m.lookup d = some i) :
    (m.erase d).keys.card < m.keys.card := by
  rw [Finmap.keys_erase]
  exact Finset.card_erase_lt_of_mem (Finmap.mem_keys.mpr (HashMap.mem_iff.mpr ⟨i, h⟩))

theorem handshakeStep_left {h : Handling} {pc : HandshakePc} (ho : s.orchestrator = .handshake h pc)
    (hs : s.handshakeStep h ok pc = some (s', os)) : s'.left < s.left := by
  have hl : s.left = HandshakePc.left pc := by rw [left, ho, Orchestrator.left]
  rw [hl]
  cases handshakeStep_move hs with
  | ensures =>
    unfold left Daemon.handshake Orchestrator.left
    dsimp only
    split <;> decide
  | _ => simp [left, Daemon.handshake, Daemon.idle, Orchestrator.left, HandshakePc.left]

theorem receivedStep_left {r : Received} {pc : ReceivedPc} (ho : s.orchestrator = .received r pc)
    (hs : s.receivedStep r ok target pc = some (s', os)) : s'.left < s.left := by
  have hl : s.left = ReceivedPc.left s.connectedDevices.keys.card pc := by rw [left, ho, Orchestrator.left]
  rw [hl]
  cases receivedStep_move hs with
  | snapshots =>
    have := card_erase_le s.connectedDevices r.sender
    simp only [left, Orchestrator.left, ReceivedPc.left]
    omega
  | relays rest i hi =>
    have := card_erase_lt hi
    simp only [left, Orchestrator.left, ReceivedPc.left]
    omega
  | writes => simp [left, setContent, Orchestrator.left, ReceivedPc.left]
  | _ => simp [left, Orchestrator.left, ReceivedPc.left]

theorem closedStep_left {id : DeviceId} {pc : ClosedPc} (ho : s.orchestrator = .closed id pc) :
    (s.closedStep id pc).left < s.left := by
  have hl : s.left = ClosedPc.left pc := by rw [left, ho, Orchestrator.left]
  rw [hl]
  cases pc <;> simp [closedStep, left, Orchestrator.left, ClosedPc.left]

/-- A step of a busy orchestrator brings it nearer to the end of what it does. -/
theorem orchestrate_left (hb : s.orchestrator ≠ .idle) (h : s.orchestrate ok target = some (s', os)) :
    s'.left < s.left := by
  cases orchestrate_turn h with
  | taken i e rest ho _ _ => exact absurd ho hb
  | handshake hh pc ho hs => exact handshakeStep_left ho hs
  | received r pc ho hr => exact receivedStep_left ho hr
  | closed id pc ho hc =>
    subst hc
    exact closedStep_left ho

theorem answer_left (peers channel : Nat) (accept : Bool) (o : Orchestrator) :
    Orchestrator.left peers (answer channel accept o) ≤ Orchestrator.left peers o := by
  rcases answer_cases channel accept o with h | ⟨hh, deadline, ho, h⟩
  · rw [h]
  · rw [h, ho]
    simp [Orchestrator.left, HandshakePc.left]

/-- No other task gives it more to do. -/
theorem step_left (h : step cfg s a = some (s', os)) (ha : a.orchestrates = false) : s'.left ≤ s.left := by
  cases ht : a.task with
  | net =>
    obtain ⟨⟨_, _, _, rfl⟩, -⟩ := net_frame h ht
    exact Nat.le_refl _
  | clipboard =>
    obtain ⟨⟨_, _, _, _, _, _, rfl⟩, -, -⟩ := clipboard_frame h ht
    exact Nat.le_refl _
  | bus =>
    obtain ⟨⟨_, _, _, _, _, _, _, _, _, _, _, rfl, hor, -⟩, -⟩ := bus_frame h ht
    rcases hor with rfl | ⟨channel, accept, rfl⟩
    · exact Nat.le_refl _
    · exact answer_left _ channel accept _
  | orchestrator =>
    cases a with
    | orchestrate ok target => cases ha
    | _ => cases ht

/-! ## It is never stuck -/

def Waits (s : Daemon) : Prop :=
  ∃ h channel deadline, s.orchestrator = .handshake h (.awaiting channel deadline none) ∧ s.now < deadline

theorem handshakeStep_enabled {h : Handling} {pc : HandshakePc} (ho : s.orchestrator = .handshake h pc) :
    (∀ ok, (s.handshakeStep h ok pc).isSome = true) ∨ s.Waits := by
  cases pc with
  | awaiting channel deadline ans =>
    cases ans with
    | none =>
      by_cases hd : deadline ≤ s.now
      · refine Or.inl fun ok => ?_
        simp only [handshakeStep]
        rw [if_pos hd]
        rfl
      · exact Or.inr ⟨h, channel, deadline, ho, Nat.lt_of_not_le hd⟩
    | some accept => cases accept <;> exact Or.inl fun _ => rfl
  | isPaired =>
    refine Or.inl fun ok => ?_
    simp only [handshakeStep]
    split
    · rfl
    · split <;> rfl
  | redeem presented =>
    refine Or.inl fun ok => ?_
    simp only [handshakeStep]
    split
    · rfl
    · split <;> rfl
  | promote =>
    refine Or.inl fun ok => ?_
    simp only [handshakeStep]
    split <;> rfl
  | _ => exact Or.inl fun _ => rfl

/-- A fan-out that is not done has a device to turn to. -/
theorem exists_target {rest : HashMap DeviceId Nat} (h : rest.keys ≠ ∅) : ∃ target i, rest.lookup target = some i := by
  obtain ⟨target, ht⟩ := Finset.nonempty_iff_ne_empty.mpr h
  obtain ⟨i, hi⟩ := HashMap.mem_iff.mp (Finmap.mem_keys.mp ht)
  exact ⟨target, i, hi⟩

theorem receivedStep_enabled (r : Received) (pc : ReceivedPc) :
    ∃ target, ∀ ok, (s.receivedStep r ok target pc).isSome = true := by
  cases pc with
  | relay rest =>
    by_cases he : rest.keys = ∅
    · refine ⟨r.sender, fun ok => ?_⟩
      simp only [receivedStep]
      rw [if_pos he]
      rfl
    · obtain ⟨target, i, hi⟩ := exists_target he
      refine ⟨target, fun ok => ?_⟩
      simp only [receivedStep]
      rw [if_neg he, hi]
      rfl
  | isPaired | shouldBroadcast | write =>
    refine ⟨r.sender, fun ok => ?_⟩
    simp only [receivedStep]
    split <;> rfl
  | handles => exact ⟨r.sender, fun ok => rfl⟩

/-- Whoever has something to do can do it, whatever becomes of the save or the clipboard, or waits. -/
theorem orchestrate_enabled (h : s.orchestrator ≠ .idle ∨ s.queue ≠ []) :
    (∃ target, ∀ ok, (s.orchestrate ok target).isSome = true) ∨ s.Waits := by
  cases ho : s.orchestrator with
  | idle =>
    cases hq : s.queue with
    | nil => exact absurd hq (h.resolve_left (not_not.mpr ho))
    | cons x rest =>
      refine Or.inl ⟨Bytes.fill 32 0, fun ok => ?_⟩
      simp only [orchestrate, ho, hq]
      rfl
  | handshake hh pc =>
    rcases handshakeStep_enabled ho with he | hw
    · refine Or.inl ⟨hh.deviceId, fun ok => ?_⟩
      simp only [orchestrate, ho]
      exact he ok
    · exact Or.inr hw
  | received r pc =>
    obtain ⟨target, he⟩ := receivedStep_enabled (s := s) r pc
    refine Or.inl ⟨target, fun ok => ?_⟩
    simp only [orchestrate, ho]
    exact he ok
  | closed id pc =>
    refine Or.inl ⟨id, fun ok => ?_⟩
    simp only [orchestrate, ho]
    rfl

/-! ## It gets to the end of the queue -/

variable {file : Option PersistedState} {clipboard : Content} {tr tr' : List Obs}

/-- The orchestrator's own steps, and the passage of time. -/
def leftAlone (_ : List Obs) (_ : Daemon) : Act → Prop
  | .orchestrate .. | .advance _ => True
  | _ => False

theorem orchestrate_queue (hb : s.orchestrator ≠ .idle) (h : s.orchestrate ok target = some (s', os)) :
    s'.queue = s.queue := by
  cases orchestrate_turn h with
  | taken i e rest ho _ _ => exact absurd ho hb
  | handshake hh pc _ hs =>
    obtain ⟨⟨_, _, _, _, _, _, _, _, _, rfl, -⟩, -⟩ := handshakeStep_frame hs
    rfl
  | received r pc _ hr =>
    obtain ⟨⟨_, _, _, _, _, rfl, -⟩, -⟩ := receivedStep_frame hr
    rfl
  | closed id pc _ hc =>
    subst hc
    cases pc <;> rfl

/-- Left alone, the orchestrator is done with what it does. -/
theorem path_idle (cfg : Config) (file : Option PersistedState) (clipboard : Content) :
    ∀ (n : Nat) (tr : List Obs) (s : Daemon), s.left = n → ∃ tr' s',
      Path (system cfg file clipboard) leftAlone tr s tr' s' ∧ s'.orchestrator = .idle ∧ s'.queue = s.queue ∧ tr <+: tr' := by
  intro n
  induction n using Nat.strongRecOn with
  | _ n ih =>
    intro tr s hn
    by_cases hb : s.orchestrator = .idle
    · exact ⟨tr, s, .refl, hb, rfl, List.prefix_refl _⟩
    · rcases orchestrate_enabled (Or.inl hb) with ⟨target, he⟩ | ⟨hh, channel, deadline, ho, -⟩
      · obtain ⟨⟨s₁, os⟩, h₁⟩ := Option.isSome_iff_exists.mp (he true)
        have hlt := orchestrate_left hb h₁
        have hs₁ : (system cfg file clipboard).step s (.orchestrate true target) = some (s₁, os) := h₁
        obtain ⟨tr', s', hp, hi, hq, hpre⟩ := ih s₁.left (hn ▸ hlt) (tr ++ os) s₁ rfl
        refine ⟨tr', s', (Path.step .refl trivial hs₁).trans hp, hi, hq.trans (orchestrate_queue hb h₁), ?_⟩
        exact (List.prefix_append _ _).trans hpre
      · -- the answer is given up on once its time is over
        have hadv : (system cfg file clipboard).step s (.advance deadline) =
            some ({ s with now := s.now + deadline }, []) := rfl
        have hend : (system cfg file clipboard).step { s with now := s.now + deadline }
            (.orchestrate true hh.deviceId) = some (({ s with now := s.now + deadline } : Daemon).idle, []) := by
          simp only [system, step, orchestrate, ho, handshakeStep]
          rw [if_pos (Nat.le_add_left _ _)]
        have hp : Path (system cfg file clipboard) leftAlone tr s (tr ++ [] ++ [])
            ({ s with now := s.now + deadline } : Daemon).idle := by
          refine .step (.step .refl ?_ hadv) ?_ hend
          · trivial
          · trivial
        rw [List.append_nil, List.append_nil] at hp
        exact ⟨tr, _, hp, rfl, rfl, List.prefix_refl _⟩

/-- Left alone, the orchestrator takes every event that waits. -/
theorem path_drained (cfg : Config) (file : Option PersistedState) (clipboard : Content) :
    ∀ (q : List (Nat × ListenerEvent)) (tr : List Obs) (s : Daemon), s.queue = q → ∃ tr' s',
      Path (system cfg file clipboard) leftAlone tr s tr' s' ∧ s'.orchestrator = .idle ∧ s'.queue = [] ∧ tr <+: tr' ∧
        ∀ i remote r, (i, .session remote (.closed r)) ∈ q → .closed i ∈ tr' := by
  intro q
  induction q with
  | nil =>
    intro tr s hq
    obtain ⟨tr', s', hp, hi, hq', hpre⟩ := path_idle cfg file clipboard s.left tr s rfl
    exact ⟨tr', s', hp, hi, hq'.trans hq, hpre, by simp⟩
  | cons x rest ih =>
    intro tr s hq
    obtain ⟨i, e⟩ := x
    obtain ⟨tr₁, s₁, hp₁, hi₁, hq₁, hpre₁⟩ := path_idle cfg file clipboard s.left tr s rfl
    rw [hq] at hq₁
    have ht : (system cfg file clipboard).step s₁ (.orchestrate true (Bytes.fill 32 0)) =
        some (({ s₁ with queue := rest } : Daemon).dispatch i e) := by
      simp only [system, step, orchestrate, hi₁, hq₁]
    generalize hd : ({ s₁ with queue := rest } : Daemon).dispatch i e = r at ht
    obtain ⟨s₂, os⟩ := r
    have hq₂ : s₂.queue = rest := by
      obtain ⟨⟨_, _, _, rfl⟩, -⟩ := dispatch_frame hd
      rfl
    obtain ⟨tr', s', hp', hi', hq', hpre', hclosed⟩ := ih (tr₁ ++ os) s₂ hq₂
    refine ⟨tr', s', hp₁.trans ((Path.step .refl trivial ht).trans hp'), hi', hq',
      hpre₁.trans ((List.prefix_append _ _).trans hpre'), fun j remote r hm => ?_⟩
    rcases List.mem_cons.mp hm with hm | hm
    · cases hm
      have hos : .closed i ∈ os := by
        cases hd
        exact List.mem_singleton_self _
      exact hpre'.subset (List.mem_append_right _ hos)
    · exact hclosed j remote r hm

/-- In whatever state the daemon is, its orchestrator is idle with nothing to take, can
go on, or waits for an answer that is due; whatever the other tasks do, it takes
no more steps over what it does than the devices connected and a constant allow;
and left alone it takes every event in the queue and is idle again. -/
theorem run_served (cfg : Config) (file : Option PersistedState) (clipboard : Content) (tr : List Obs) (s : Daemon) :
    (s.orchestrator ≠ .idle ∨ s.queue ≠ [] → (∃ target, ∀ ok, (s.orchestrate ok target).isSome = true) ∨ s.Waits) ∧
    (∀ n s', Counted (system cfg file clipboard) (fun t _ => t.orchestrator ≠ .idle) Act.orchestrates s n s' →
      s'.left + n ≤ s.left) ∧
    (∀ i e rest, s.orchestrator = .idle → s.queue = (i, e) :: rest → ∀ s₁ os,
      ({ s with queue := rest } : Daemon).dispatch i e = (s₁, os) → s₁.left ≤ s.connectedDevices.keys.card + 14) ∧
    ∃ tr' s', Path (system cfg file clipboard) leftAlone tr s tr' s' ∧ s'.orchestrator = .idle ∧ s'.queue = [] ∧
      tr <+: tr' ∧ ∀ i remote r, (i, .session remote (.closed r)) ∈ s.queue → .closed i ∈ tr' := by
  refine ⟨orchestrate_enabled, fun n s' hc => ?_, fun i e rest ho hq s₁ os hd => ?_,
    path_drained cfg file clipboard s.queue tr s rfl⟩
  · refine hc.bounded (fun t a t' os hb hs hk => ?_) (fun t a t' os hb hs hk => step_left hs hk)
    cases a with
    | orchestrate ok target => exact orchestrate_left hb hs
    | _ => cases hk
  · cases e with
    | connected remote j =>
      cases hd
      simp [left, ho, Orchestrator.left]
    | session remote ev =>
      cases ev with
      | clipboardReceived clip =>
        simp only [dispatch] at hd
        split at hd
        · cases hd
          simp [left, Orchestrator.left, ReceivedPc.left]
        · cases hd
          simp [left, ho, Orchestrator.left]
      | closed r =>
        cases hd
        simp only [left]
        split <;> simp [Orchestrator.left, ClosedPc.left]
      | peerHandshake id name caps token =>
        cases hd
        simp [left, Daemon.handshake, Orchestrator.left, HandshakePc.left]
      | ponged rtt =>
        cases hd
        simp [left, ho, Orchestrator.left]

end

end Daemon

end PenguinSync
