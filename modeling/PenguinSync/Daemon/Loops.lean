import PenguinSync.Daemon.Frames

/-!
# The two clipboard loops side by side

What any step does to the clipboard, its pending notifications, the last hash
and the places where the two loops stand.
-/

namespace PenguinSync

namespace Daemon

def Orchestrator.received? : Orchestrator → Option (Received × ReceivedPc)
  | .received r pc => some (r, pc)
  | _ => none

theorem Orchestrator.received?_iff {o : Orchestrator} {r : Received} {pc : ReceivedPc} :
    Orchestrator.received? o = some (r, pc) ↔ o = .received r pc := by
  cases o <;> simp [Orchestrator.received?]

def Orchestrator.writes? : Orchestrator → Option Received
  | .received r .write => some r
  | _ => none

theorem writes?_of_received? {o : Orchestrator} {r : Received} (h : Orchestrator.received? o = some (r, .write)) :
    r ∈ Orchestrator.writes? o := by
  rw [Orchestrator.received?_iff] at h
  rw [h]
  rfl

theorem not_writing {o : Orchestrator} {r : Received} {pc : ReceivedPc} (ho : o = .received r pc) (hpc : pc ≠ .write)
    (r' : Received) : Orchestrator.received? o ≠ some (r', .write) := by
  intro h
  rw [ho] at h
  cases h
  exact hpc rfl

def Watch.on : Watch → Bool
  | .off => false
  | _ => true

def Watch.reads : Watch → Bool
  | .reading _ => true
  | _ => false

def Watch.broadcasts : Watch → Bool
  | .handles _ | .sending .. => true
  | _ => false

def Obs.clip : Obs → Bool
  | .accepted .. | .checked .. | .applied .. | .handed .. | .copied _ => true
  | _ => false

structure SameLoops (s s' : Daemon) : Prop where
  clipboard : s'.clipboard = s.clipboard
  changes : s'.changes = s.changes
  watch : s'.watch = s.watch
  lastHash : s'.lastHash = s.lastHash
  backend : s'.backend = s.backend

/-- A step of one of the loops, of the user or the desktop, or of neither. -/
inductive LoopMove (cfg : Config) (s : Daemon) : Act → Daemon → List Obs → Prop
  | other {a : Act} {s' : Daemon} {os : List Obs} : SameLoops s s' →
      Orchestrator.received? s'.orchestrator = Orchestrator.received? s.orchestrator →
      (∀ o ∈ os, Obs.clip o = false) → LoopMove cfg s a s' os
  | taken {a : Act} {s' : Daemon} {r : Received} : SameLoops s s' → s.orchestrator = .idle →
      s'.orchestrator = .received r .isPaired → LoopMove cfg s a s' []
  | copied {c : Content} : LoopMove cfg s (.copy c) (s.setContent c) [.copied c]
  | notified : LoopMove cfg s .notify s.notify []
  | probed : s.backend = false → LoopMove cfg s .probe { s with backend := true, watch := .idle } []
  | ended : s.watch = .idle → s.changes = [] → LoopMove cfg s .watchEnds { s with watch := .off } []
  | watches {ok : Bool} {target : DeviceId} {s' : Daemon} {os : List Obs} : WatchMove cfg s ok target s.watch s' os →
      LoopMove cfg s (.watch ok target) s' os
  | receives {ok : Bool} {target : DeviceId} {r : Received} {pc : ReceivedPc} {s' : Daemon} {os : List Obs} :
      s.orchestrator = .received r pc → ReceivedMove s r ok target pc s' os →
      LoopMove cfg s (.orchestrate ok target) s' os

section
variable {cfg : Config} {s s' : Daemon} {a : Act} {os : List Obs}

theorem clip_of_bus {o : Obs} (h : Obs.bus o = true) : Obs.clip o = false := by
  cases o <;> first | rfl | cases h

theorem clip_of_handshaking {o : Obs} (h : Obs.handshaking o = true) : Obs.clip o = false := by
  cases o <;> first | rfl | cases h

theorem answer_received? (channel : Nat) (accept : Bool) (o : Orchestrator) :
    Orchestrator.received? (answer channel accept o) = Orchestrator.received? o := by
  rcases answer_cases channel accept o with h | ⟨_, _, rfl, h⟩
  · rw [h]
  · rw [h]
    rfl

theorem dispatch_loops {i : Nat} {e : ListenerEvent} {rest : List (Nat × ListenerEvent)} (ho : s.orchestrator = .idle)
    (h : ({ s with queue := rest } : Daemon).dispatch i e = (s', os)) : LoopMove cfg s a s' os := by
  have hr : Orchestrator.received? s.orchestrator = none := by rw [ho]; rfl
  cases e with
  | connected remote handle =>
    cases h
    exact .other ⟨rfl, rfl, rfl, rfl, rfl⟩ rfl (List.forall_mem_nil _)
  | session remote ev =>
    cases ev with
    | peerHandshake deviceId name caps token =>
      cases h
      exact .other ⟨rfl, rfl, rfl, rfl, rfl⟩ hr.symm (by simp [Obs.clip])
    | ponged rtt =>
      cases h
      exact .other ⟨rfl, rfl, rfl, rfl, rfl⟩ rfl (List.forall_mem_nil _)
    | clipboardReceived clip =>
      simp only [dispatch] at h
      split at h <;> cases h
      · exact .taken ⟨rfl, rfl, rfl, rfl, rfl⟩ ho rfl
      · exact .other ⟨rfl, rfl, rfl, rfl, rfl⟩ rfl (List.forall_mem_nil _)
    | closed reason =>
      cases h
      refine .other ⟨rfl, rfl, rfl, rfl, rfl⟩ ?_ (by simp [Obs.clip])
      rw [hr]
      simp only
      split <;> rfl

theorem step_loops (h : step cfg s a = some (s', os)) : LoopMove cfg s a s' os := by
  cases ha : a.task with
  | net =>
    obtain ⟨⟨_, _, _, rfl⟩, ho⟩ := net_frame h ha
    refine .other ⟨rfl, rfl, rfl, rfl, rfl⟩ rfl fun o hm => ?_
    obtain ⟨i, x, rfl⟩ := ho o hm
    rfl
  | bus =>
    obtain ⟨⟨_, _, _, _, _, _, _, _, _, _, _, rfl, hor, -⟩, ho⟩ := bus_frame h ha
    refine .other ⟨rfl, rfl, rfl, rfl, rfl⟩ ?_ fun o hm => clip_of_bus (ho o hm)
    rcases hor with rfl | ⟨channel, accept, rfl⟩
    · rfl
    · exact answer_received? channel accept _
  | clipboard =>
    cases a with
    | probe =>
      simp only [step, probe, Option.ite_none_left_eq_some, Option.some.injEq, Prod.mk.injEq] at h
      obtain ⟨hb, rfl, rfl⟩ := h
      exact .probed (Bool.not_eq_true _ ▸ (not_or.mp hb).2)
    | copy c =>
      cases h
      exact .copied
    | notify =>
      cases h
      exact .notified
    | watch ok target => exact .watches (watchStep_move rfl h)
    | watchEnds =>
      simp only [step, watchEnds] at h
      split at h
      · rename_i hw hc
        cases h
        exact .ended hw hc
      · cases h
    | _ => cases ha
  | orchestrator =>
    cases a with
    | orchestrate ok target =>
      cases orchestrate_turn h with
      | taken i e rest ho _ hd => exact dispatch_loops ho hd
      | handshake hh pc ho hs =>
        obtain ⟨⟨_, _, _, _, _, _, _, _, o, rfl, hor⟩, hos⟩ := handshakeStep_frame hs
        refine .other ⟨rfl, rfl, rfl, rfl, rfl⟩ ?_ fun x hx => clip_of_handshaking (hos x hx)
        rw [ho]
        rcases hor with rfl | ⟨pc', rfl⟩ <;> rfl
      | received r pc ho hr => exact .receives ho (receivedStep_move hr)
      | closed id pc ho hc =>
        subst hc
        refine .other ?_ ?_ (List.forall_mem_nil _)
        · cases pc <;> exact ⟨rfl, rfl, rfl, rfl, rfl⟩
        · rw [ho]
          cases pc <;> rfl
    | _ => cases ha

end

end Daemon

end PenguinSync
