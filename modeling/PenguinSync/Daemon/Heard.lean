import PenguinSync.Daemon.Unpair
import PenguinSync.Daemon.Handed

/-!
# Where the clips of the daemon come from

Whatever of a session waits for the orchestrator was reported by that session,
and so was the clip that the orchestrator has in hand.
-/

namespace PenguinSync

open Lts

namespace Daemon

def told (i : Nat) (tr : List Obs) : List SessionEvent := (outsOn i tr).filterMap Output.event?

structure Reported (tr : List Obs) (s : Daemon) : Prop where
  pending : ∀ i, ∀ ev ∈ s.pending i, ev ∈ told i tr
  received : ∀ r pc, s.orchestrator = .received r pc → .clipboardReceived r.clip ∈ told r.session tr

section
variable {cfg : Config} {s s' : Daemon} {tr os : List Obs} {a : Act} {i : Nat} {ev : SessionEvent}

theorem told_append : told i (tr ++ os) = told i tr ++ told i os := by
  unfold told outsOn
  rw [List.filterMap_append, List.filterMap_append]

theorem told_outs (i : Nat) (outs : List Output) : told i (outs.map (.out i)) = outs.filterMap Output.event? := by
  unfold told outsOn
  rw [List.filterMap_map]
  simp

theorem pending_cores (hc : s'.cores = s.cores) (hq : s'.queue = s.queue) (i : Nat) : s'.pending i = s.pending i := by
  unfold pending
  rw [hq, undrained_cores hc]

theorem pending_connection {j : Nat} {ca : ConnectionAct} (h : s.connectionStep j ca = some (s', os))
    (hev : ev ∈ s'.pending i) : ev ∈ s.pending i ∨ ev ∈ told i os := by
  unfold connectionStep at h
  split at h
  · cases h
  rename_i k hk
  split at h
  · cases h
  rename_i ses outs hs
  cases h
  have hnew : queued i (connected j k ca) = [] := by
    unfold connected
    split
    · by_cases hij : j = i <;> simp [queued, ListenerEvent.session?, hij]
    · rfl
  unfold pending at hev ⊢
  rw [queued_append, hnew, List.append_nil] at hev
  by_cases hij : j = i
  · subst hij
    rw [undrained_set_self hk, ← List.append_assoc] at hev
    rw [undrained_of hk, told_outs]
    exact List.mem_append.mp hev
  · rw [undrained_set_ne hij] at hev
    exact Or.inl hev

theorem pending_net (h : step cfg s a = some (s', os)) (ha : a.task = .net) (hev : ev ∈ s'.pending i) :
    ev ∈ s.pending i ∨ ev ∈ told i os := by
  cases a with
  | advance dt =>
    cases h
    exact Or.inl hev
  | accept remote spki =>
    rw [pending_accept h] at hev
    exact Or.inl hev
  | connection j ca => exact pending_connection h hev
  | drain j =>
    rw [pending_drain h] at hev
    exact Or.inl hev
  | _ => cases ha

theorem Reported.next (hi : Reported tr s) (hp : ∀ i, ∀ ev ∈ s'.pending i, ev ∈ s.pending i ∨ ev ∈ told i os)
    (ho : ∀ r pc, s'.orchestrator = .received r pc →
      (∃ pc', s.orchestrator = .received r pc') ∨ .clipboardReceived r.clip ∈ s.pending r.session) :
    Reported (tr ++ os) s' := by
  refine ⟨fun i ev hev => ?_, fun r pc hr => ?_⟩
  · rw [told_append]
    rcases hp i ev hev with hev | hev
    · exact List.mem_append_left _ (hi.pending i ev hev)
    · exact List.mem_append_right _ hev
  · rw [told_append]
    apply List.mem_append_left
    rcases ho r pc hr with ⟨pc', hr'⟩ | hmem
    · exact hi.received r pc' hr'
    · exact hi.pending _ _ hmem

theorem Reported.turn {ok : Bool} {target : DeviceId} (hi : Reported tr s) (h : Turn s s' ok target os) :
    Reported (tr ++ os) s' := by
  cases h with
  | taken j e rest ho hq hd =>
    have hsplit : ∀ k, queued k s.queue = queued k [(j, e)] ++ queued k rest := by
      intro k
      rw [← queued_append, hq]
      rfl
    obtain ⟨⟨_, _, _, hs'⟩, -⟩ := dispatch_frame hd
    refine hi.next (fun k ev hev => Or.inl ?_) (fun r pc hr => Or.inr ?_)
    · have hev' : ev ∈ queued k rest ++ undrained k s.connections := by
        rw [hs'] at hev
        exact hev
      unfold Daemon.pending
      rw [hsplit, List.append_assoc]
      exact List.mem_append_right _ hev'
    · obtain ⟨rfl, he⟩ := dispatch_received (s := { s with queue := rest }) ho hd hr
      unfold Daemon.pending
      rw [hsplit]
      apply List.mem_append_left
      apply List.mem_append_left
      simp [queued, he]
  | handshake hh pc _ hs =>
    obtain ⟨⟨_, _, _, _, _, _, _, _, _, rfl, hor⟩, -⟩ := handshakeStep_frame hs
    refine hi.next (fun _ _ => Or.inl) (fun r pc hr => ?_)
    rcases hor with rfl | ⟨_, rfl⟩ <;> cases hr
  | received r pc ho hr =>
    obtain ⟨⟨_, _, _, _, _, hs', hor⟩, hc, -⟩ := receivedStep_frame hr
    have hp := pending_cores hc (by rw [hs'])
    refine hi.next (fun k ev hev => Or.inl (by rwa [hp k] at hev)) (fun r' pc' hr' => Or.inl ?_)
    rw [hs'] at hr'
    rcases hor with rfl | ⟨_, rfl⟩
    · cases hr'
    · cases hr'
      exact ⟨pc, ho⟩
  | closed id pc _ hc =>
    subst hc
    have hp : ∀ k, (s.closedStep id pc).pending k = s.pending k := fun k => by cases pc <;> rfl
    refine hi.next (fun k ev hev => Or.inl (by rwa [hp k] at hev)) (fun r pc' hr => ?_)
    cases pc <;> cases hr

theorem Reported.step (hi : Reported tr s) (h : step cfg s a = some (s', os)) : Reported (tr ++ os) s' := by
  cases ha : a.task with
  | net =>
    obtain ⟨⟨_, _, _, hs'⟩, -⟩ := net_frame h ha
    refine hi.next (fun i ev hev => pending_net h ha hev) (fun r pc hr => Or.inl ⟨pc, ?_⟩)
    rw [hs'] at hr
    exact hr
  | clipboard =>
    obtain ⟨⟨_, _, _, _, _, _, hs'⟩, hc, -⟩ := clipboard_frame h ha
    have hp := pending_cores hc (by rw [hs'])
    refine hi.next (fun k ev hev => Or.inl (by rwa [hp k] at hev)) (fun r pc hr => Or.inl ⟨pc, ?_⟩)
    rw [hs'] at hr
    exact hr
  | bus =>
    obtain ⟨⟨_, _, _, _, _, _, o, _, _, _, _, rfl, hor, -⟩, -⟩ := bus_frame h ha
    refine hi.next (fun _ _ => Or.inl) (fun r pc hr => Or.inl ?_)
    rcases hor with rfl | ⟨channel, accept, rfl⟩
    · exact ⟨pc, hr⟩
    · rcases answer_cases channel accept s.orchestrator with he | ⟨_, _, _, he⟩
      · exact ⟨pc, he.symm.trans hr⟩
      · cases he.symm.trans hr
  | orchestrator =>
    cases a with
    | orchestrate ok target => exact hi.turn (orchestrate_turn h)
    | _ => cases ha

variable {file : Option PersistedState} {clipboard : Content} {C : List Obs → Daemon → Act → Prop}

theorem run_reported (h : Run (system cfg file clipboard) C tr s) : Reported tr s := by
  refine h.invariant (fun s h0 => ?_) (fun tr s a s' os _ hi _ hs => hi.step hs)
  rw [h0]
  exact ⟨fun i ev hev => absurd hev List.not_mem_nil, fun r pc hr => (by cases hr)⟩

/-- The clip that is written to the clipboard was reported by a session. -/
theorem applied_told {d : DeviceId} {c : Clip} (hr : Run (system cfg file clipboard) C tr s)
    (h : step cfg s a = some (s', os)) (ho : .applied d c ∈ os) : ∃ i, .clipboardReceived c ∈ told i tr := by
  obtain ⟨ok, target, -, ht⟩ := step_turn h ho (by simp) rfl rfl
  obtain ⟨r, pc, hor, hs⟩ := ht.of_receiving ho rfl
  obtain ⟨-, -, hc⟩ := receivedStep_applied hs ho
  refine ⟨r.session, ?_⟩
  rw [← hc]
  exact (run_reported hr).received r pc hor

end

end Daemon

end PenguinSync
