import PenguinSync.Daemon.Reach

/-!
# What the clips in use are like

A clip read from the desktop went through `Clip.new`. A received one was
decoded, and of what `Clip.new` looks at only the MIME type is looked at again.
-/

namespace PenguinSync

open Lts

namespace Daemon

def Obs.clip? : Obs → Option Clip
  | .checked _ c | .applied _ c | .handed _ _ _ c => some c
  | _ => none

def Watch.clip? : Watch → Option Clip
  | .checking c | .handles c | .sending c _ => some c
  | _ => none

def Orchestrator.clip? : Orchestrator → Option Clip
  | .received _ .isPaired => none
  | .received r _ => some r.clip
  | _ => none

def fits (cfg : Config) (c : Clip) : Bool :=
  c.content.length ≤ maxContentLen ∧ c.hash = cfg.crypto.blake3 c.content

/-- A text clip of a paired device fits. -/
def sound (cfg : Config) (s : Daemon) : Act → Bool
  | .orchestrate .. =>
    match s.orchestrator with
    | .received r .isPaired => s.trust.isPaired r.sender ∧ r.clip.mime = mimeTextPlain → fits cfg r.clip
    | _ => true
  | _ => true

structure ClipsInv (cfg : Config) (tr : List Obs) (s : Daemon) : Prop where
  used : ∀ o ∈ tr, ∀ c, Obs.clip? o = some c → c.Valid cfg.crypto.blake3
  watched : ∀ c, Watch.clip? s.watch = some c → c.Valid cfg.crypto.blake3
  received : ∀ c, Orchestrator.clip? s.orchestrator = some c → c.Valid cfg.crypto.blake3

section
variable {cfg : Config} {s s' : Daemon} {tr os : List Obs} {a : Act} {c : Clip}

/-- The watch has a clip in hand that it had before, or that it has just made. -/
theorem watchStep_clip {ok : Bool} {target : DeviceId} (h : s.watchStep cfg ok target = some (s', os)) :
    (Watch.clip? s'.watch = some c → Watch.clip? s.watch = some c ∨ c.Valid cfg.crypto.blake3) ∧
      ∀ o ∈ os, Obs.clip? o = some c → Watch.clip? s.watch = some c := by
  unfold watchStep at h
  cases hw : s.watch with
  | off => simp only [hw, reduceCtorEq] at h
  | idle =>
    simp only [hw] at h
    split at h
    · cases h
    · split at h
      · cases h
        exact ⟨fun hc => Or.inl (hw ▸ hc), by simp⟩
      · cases h
        exact ⟨nofun, by simp⟩
  | reading mime =>
    simp only [hw] at h
    split at h
    · split at h
      · rename_i c' hc'
        cases h
        refine ⟨fun hc => ?_, by simp⟩
        cases hc
        exact Or.inr (Clip.valid_of_new hc').1
      · cases h
        exact ⟨nofun, by simp⟩
    · cases h
      exact ⟨nofun, by simp⟩
  | checking c' =>
    simp only [hw] at h
    split at h
    · cases h
      exact ⟨Or.inl, by simp [Obs.clip?, Watch.clip?]⟩
    · cases h
      exact ⟨nofun, by simp [Obs.clip?, Watch.clip?]⟩
  | handles c' =>
    simp only [hw] at h
    cases h
    exact ⟨Or.inl, by simp⟩
  | sending c' rest =>
    simp only [hw] at h
    split at h
    · cases h
      exact ⟨nofun, by simp⟩
    · split at h
      · cases h
      · cases h
        exact ⟨Or.inl, by simp [Obs.clip?, Watch.clip?]⟩

/-- A received clip is in use once it was found to come from a paired device. -/
theorem receivedStep_clip {r : Received} {pc : ReceivedPc} {ok : Bool} {target : DeviceId}
    (h : s.receivedStep r ok target pc = some (s', os)) :
    (Orchestrator.clip? s'.orchestrator = some c → Orchestrator.clip? (.received r pc) = some c ∨
      pc = .isPaired ∧ r.clip = c ∧ s.trust.isPaired r.sender ∧ r.clip.mime = mimeTextPlain) ∧
      ∀ o ∈ os, Obs.clip? o = some c → Orchestrator.clip? (.received r pc) = some c := by
  cases pc with
  | isPaired =>
    simp only [receivedStep] at h
    split at h
    · rename_i hp
      cases h
      refine ⟨fun hc => ?_, by simp [Obs.clip?]⟩
      cases hc
      exact Or.inr ⟨rfl, rfl, hp⟩
    · cases h
      exact ⟨(fun hc => by cases hc), by simp⟩
  | shouldBroadcast =>
    simp only [receivedStep] at h
    split at h
    · cases h
      exact ⟨Or.inl, by simp [Obs.clip?, Orchestrator.clip?]⟩
    · cases h
      exact ⟨(fun hc => by cases hc), by simp [Obs.clip?, Orchestrator.clip?]⟩
  | write =>
    simp only [receivedStep] at h
    split at h
    · cases h
      exact ⟨Or.inl, by simp [Obs.clip?, Orchestrator.clip?]⟩
    · cases h
      exact ⟨Or.inl, by simp⟩
  | handles =>
    cases h
    exact ⟨Or.inl, by simp⟩
  | relay rest =>
    simp only [receivedStep] at h
    split at h
    · cases h
      exact ⟨(fun hc => by cases hc), by simp⟩
    · split at h
      · cases h
      · cases h
        exact ⟨Or.inl, by simp [Obs.clip?, Orchestrator.clip?]⟩

theorem valid_of_fits (hm : c.mime = mimeTextPlain) (hf : fits cfg c = true) : c.Valid cfg.crypto.blake3 := by
  obtain ⟨hl, hh⟩ := of_decide_eq_true hf
  exact ⟨hm, hl, hh⟩

theorem answer_clip (channel : Nat) (accept : Bool) (o : Orchestrator) :
    Orchestrator.clip? (answer channel accept o) = Orchestrator.clip? o := by
  rcases answer_cases channel accept o with h | ⟨_, _, rfl, h⟩
  · rw [h]
  · rw [h]
    rfl

theorem dispatch_clip {i : Nat} {e : ListenerEvent} (h : s.dispatch i e = (s', os)) (ho : s.orchestrator = .idle) :
    Orchestrator.clip? s'.orchestrator = none := by
  cases e with
  | connected remote handle =>
    cases h
    rw [ho]
    rfl
  | session remote ev =>
    cases ev with
    | peerHandshake deviceId name caps token =>
      cases h
      rfl
    | ponged rtt =>
      cases h
      rw [ho]
      rfl
    | clipboardReceived clip =>
      simp only [dispatch] at h
      split at h
      · cases h
        rfl
      · cases h
        rw [ho]
        rfl
    | closed r =>
      cases h
      simp only
      split <;> rfl

theorem used_step {o : Obs} (h : step cfg s a = some (s', os)) (ho : o ∈ os) (hc : Obs.clip? o = some c) :
    Watch.clip? s.watch = some c ∨ Orchestrator.clip? s.orchestrator = some c := by
  cases ha : a.task with
  | net =>
    obtain ⟨i, x, rfl⟩ := (net_frame h ha).2 o ho
    cases hc
  | clipboard =>
    rcases step_local h ho ((clipboard_frame h ha).2.2 o ho) with ⟨x, -, rfl⟩ | ⟨ok, target, -, hs⟩
    · cases hc
    · exact Or.inl ((watchStep_clip hs).2 o ho hc)
  | bus =>
    have := (bus_frame h ha).2 o ho
    unfold Obs.clip? at hc
    split at hc <;> first | cases this | cases hc
  | orchestrator =>
    cases a with
    | orchestrate ok target =>
      unfold Obs.clip? at hc
      cases orchestrate_turn h with
      | taken i e rest _ _ hd =>
        have := (dispatch_frame hd).2 o ho
        split at hc <;> first | cases this | cases hc
      | handshake hh pc _ hs =>
        have := (handshakeStep_frame hs).2 o ho
        split at hc <;> first | cases this | cases hc
      | received r pc hor hr =>
        right
        rw [hor]
        exact (receivedStep_clip hr).2 o ho hc
      | closed id pc _ _ => simp at ho
    | _ => cases ha

theorem ClipsInv.watch_step (hi : ClipsInv cfg tr s) (h : step cfg s a = some (s', os))
    (hc : Watch.clip? s'.watch = some c) : c.Valid cfg.crypto.blake3 := by
  cases ha : a.task with
  | net =>
    obtain ⟨⟨_, _, _, rfl⟩, -⟩ := net_frame h ha
    exact hi.watched c hc
  | clipboard =>
    cases a with
    | watch ok target =>
      rcases (watchStep_clip h).1 hc with hc | hv
      · exact hi.watched c hc
      · exact hv
    | probe =>
      simp only [Daemon.step, probe, Option.ite_none_left_eq_some, Option.some.injEq, Prod.mk.injEq] at h
      obtain ⟨-, rfl, -⟩ := h
      cases hc
    | copy x =>
      cases h
      exact hi.watched c hc
    | notify =>
      cases h
      exact hi.watched c hc
    | watchEnds =>
      simp only [Daemon.step, watchEnds] at h
      split at h <;> (cases h; try cases hc)
    | _ => cases ha
  | bus =>
    obtain ⟨⟨_, _, _, _, _, _, _, _, _, _, _, rfl, -⟩, -⟩ := bus_frame h ha
    exact hi.watched c hc
  | orchestrator =>
    cases a with
    | orchestrate ok target =>
      have hw : s'.watch = s.watch := by
        cases orchestrate_turn h with
        | taken i e rest _ _ hd =>
          obtain ⟨⟨_, _, _, rfl⟩, -⟩ := dispatch_frame hd
          rfl
        | handshake hh pc _ hs =>
          obtain ⟨⟨_, _, _, _, _, _, _, _, _, rfl, -⟩, -⟩ := handshakeStep_frame hs
          rfl
        | received r pc _ hr =>
          obtain ⟨⟨_, _, _, _, _, rfl, -⟩, -, -⟩ := receivedStep_frame hr
          rfl
        | closed id pc _ hd =>
          subst hd
          cases pc <;> rfl
      rw [hw] at hc
      exact hi.watched c hc
    | _ => cases ha

theorem ClipsInv.received_step (hi : ClipsInv cfg tr s) (hs : sound cfg s a = true) (h : step cfg s a = some (s', os))
    (hc : Orchestrator.clip? s'.orchestrator = some c) : c.Valid cfg.crypto.blake3 := by
  cases ha : a.task with
  | net =>
    obtain ⟨⟨_, _, _, rfl⟩, -⟩ := net_frame h ha
    exact hi.received c hc
  | clipboard =>
    obtain ⟨⟨_, _, _, _, _, _, rfl⟩, -, -⟩ := clipboard_frame h ha
    exact hi.received c hc
  | bus =>
    obtain ⟨⟨_, _, _, _, _, _, _, _, _, _, _, rfl, hor, -⟩, -⟩ := bus_frame h ha
    rcases hor with rfl | ⟨channel, accept, rfl⟩
    · exact hi.received c hc
    · exact hi.received c (answer_clip channel accept s.orchestrator ▸ hc)
  | orchestrator =>
    cases a with
    | orchestrate ok target =>
      cases orchestrate_turn h with
      | taken i e rest hor _ hd =>
        rw [dispatch_clip hd hor] at hc
        cases hc
      | handshake hh pc _ hh' =>
        obtain ⟨⟨_, _, _, _, _, _, _, _, _, rfl, hor⟩, -⟩ := handshakeStep_frame hh'
        rcases hor with rfl | ⟨_, rfl⟩ <;> cases hc
      | received r pc hor hr =>
        rcases (receivedStep_clip hr).1 hc with hc | ⟨rfl, rfl, hp, hm⟩
        · exact hi.received c (hor ▸ hc)
        · refine valid_of_fits hm ?_
          simp only [sound, hor, decide_eq_true_eq] at hs
          exact hs ⟨hp, hm⟩
      | closed id pc _ hd =>
        subst hd
        cases pc <;> cases hc
    | _ => cases ha

variable {file : Option PersistedState} {clipboard : Content}

theorem run_clipsInv (h : Run (system cfg file clipboard) (fun _ s a => sound cfg s a = true) tr s) :
    ClipsInv cfg tr s := by
  refine h.invariant (fun s h0 => ?_) (fun tr s a s' os _ hi hc hs => ⟨fun o ho c hoc => ?_,
    fun c => hi.watch_step hs, fun c => hi.received_step hc hs⟩)
  · rw [h0]
    exact ⟨by simp, nofun, nofun⟩
  · rcases List.mem_append.mp ho with ho | ho
    · exact hi.used o ho c hoc
    · rcases used_step hs ho hoc with hc | hc
      · exact hi.watched c hc
      · exact hi.received c hc

/-- Whatever is checked for an echo, written or sent is a value `Clip.new`
returns, in a run where the received clips fit. -/
theorem run_clips_valid (h : Run (system cfg file clipboard) (fun _ s a => sound cfg s a = true) tr s) :
    ∀ o ∈ tr, ∀ c, Obs.clip? o = some c → c.Valid cfg.crypto.blake3 ∧ Clip.new cfg.crypto.blake3 c.mime c.content = .ok c := by
  intro o ho c hc
  have hv := (run_clipsInv h).used o ho c hc
  exact ⟨hv, Clip.new_of_valid hv⟩

end

open Sample in
def Sample.drifted : Clip := ⟨mimeTextPlain, [65], hashB⟩

open Sample in
theorem drifted_enabled : (exec (system cfg none empty) anyway [] (initial none empty)
    (pair 0 (addr 2) phoneKey ++ [.probe] ++ share 0 drifted ++ turns 4)).isSome = true := by
  decide +kernel

open Sample in
/-- It is checked for an echo and written. -/
theorem drifted_used : ∃ tr s, Run (system cfg none empty) always tr s ∧ phone ∈ s.trust.paired ∧
    .checked .received drifted ∈ tr ∧ .applied phone drifted ∈ tr ∧ ¬ drifted.Valid crypto.blake3 := by
  refine ⟨_, _, run_of_anyway rfl drifted_enabled, by decide +kernel, by decide +kernel, by decide +kernel,
    fun h => ?_⟩
  exact absurd h.hash (by decide +kernel)

open Sample in
theorem shared_enabled : (exec (system cfg none empty) (fun _ s a => sound cfg s a) [] (initial none empty)
    (pair 0 (addr 2) phoneKey ++ [.probe] ++ share 0 clipA ++ turns 4)).isSome = true := by
  decide +kernel

open Sample in
theorem run_clips_valid_shared :
    let r := (exec (system cfg none empty) (fun _ s a => sound cfg s a) [] (initial none empty)
      (pair 0 (addr 2) phoneKey ++ [.probe] ++ share 0 clipA ++ turns 4)).get shared_enabled
    .applied phone clipA ∈ r.1 ∧ clipA.Valid crypto.blake3 := by
  have ha : Obs.applied phone clipA ∈ ((exec (system cfg none empty) (fun _ s a => sound cfg s a) []
      (initial none empty) (pair 0 (addr 2) phoneKey ++ [.probe] ++ share 0 clipA ++ turns 4)).get shared_enabled).1 := by
    decide +kernel
  exact ⟨ha, (run_clips_valid (run_of_exec (fun _ _ _ h => h) rfl shared_enabled) _ ha clipA rfl).1⟩

end Daemon

end PenguinSync
