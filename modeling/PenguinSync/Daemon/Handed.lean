import PenguinSync.Protocol.Link
import PenguinSync.Net.RoundTrip
import PenguinSync.Daemon.Clips
import PenguinSync.Daemon.Residue

/-!
# What is handed to a session

A clip that came in a frame fits in one again, though nobody looks at its size,
and so does one that was read from the desktop. The handle it is given to is that
of a session there is.
-/

namespace PenguinSync

open Lts

theorem Call.reported {m m' : ConnectionMachine} {nonce : UInt64} {clock : Time} {ev : Event} {acts : List Action} {c : Clip}
    {write : Bool} (h : Call m nonce clock ev m' acts)
    (hc : .clipboardReceived c ∈ (runActions write acts).1.filterMap Output.event?) : ev = .received (.clipboard c) := by
  cases h with
  | clip c' hr =>
    simp [runActions, Output.event?] at hc
    rw [hc]
  | started | answered | pinged | shared => cases write <;> simp [runActions, Output.event?] at hc
  | _ => simp [runActions, Output.event?] at hc

theorem Session.step_clip_fits {ses ses' : Session} {b : Session.Act} {outs : List Output} {c : Clip}
    (h : ses.step b = some (ses', outs)) (hc : .clipboardReceived c ∈ outs.filterMap Output.event?) :
    (Message.clipboard c).Fits := by
  have hgive : ∀ {s : Session} {ev nonce clock write}, s.give ev nonce clock write = (ses', outs) →
      ev = .received (.clipboard c) := by
    intro s ev nonce clock write hg
    have hcall : Call s.machine nonce clock ev _ _ := handle_call rfl
    rw [show outs = (s.give ev nonce clock write).2 by rw [hg]] at hc
    exact hcall.reported hc
  have hclose : ∀ {r}, ses.close r = (ses', outs) → False := by
    intro r hg
    rw [show outs = (ses.close r).2 by rw [hg]] at hc
    simp [Session.close, Output.event?] at hc
  cases b with
  | start write =>
    simp only [Session.step, Option.ite_none_right_eq_some, Option.some.injEq] at h
    cases hgive h.2
  | receive body nonce clock write =>
    simp only [Session.step, Option.ite_none_right_eq_some] at h
    obtain ⟨⟨-, hlen⟩, h⟩ := h
    split at h
    · rename_i m hm
      cases hgive (Option.some.inj h)
      exact Nat.le_trans (encode_le_of_decode hm).2 hlen
    · exact absurd (Option.some.inj h) hclose
  | oversized len =>
    simp only [Session.step, Option.ite_none_right_eq_some, Option.some.injEq] at h
    exact absurd h.2 hclose
  | tick now nonce write =>
    simp only [Session.step, Option.ite_none_right_eq_some, Option.some.injEq] at h
    cases hgive h.2
  | command write =>
    simp only [Session.step, Option.ite_none_right_eq_some] at h
    obtain ⟨-, h⟩ := h
    split at h
    · cases h
    · cases hgive (Option.some.inj h)
  | lost e =>
    simp only [Session.step, Option.ite_none_right_eq_some, Option.some.injEq] at h
    exact absurd h.2 hclose

/-- The end of a session on the daemon's side. -/
def Config.endpoint (cfg : Config) : Endpoint := ⟨{ cfg.localId with capabilities := [] }, Daemon.keepaliveInterval, none⟩

namespace Daemon

structure Sized (s : Daemon) : Prop where
  events : ∀ k ∈ s.connections, ∀ c, .clipboardReceived c ∈ k.events → (Message.clipboard c).Fits
  queue : ∀ i remote c, (i, .session remote (.clipboardReceived c)) ∈ s.queue → (Message.clipboard c).Fits
  received : ∀ r pc, s.orchestrator = .received r pc → (Message.clipboard r.clip).Fits
  watched : ∀ c, Watch.clip? s.watch = some c → (Message.clipboard c).Fits

section
variable {cfg : Config} {s s' : Daemon} {tr os : List Obs} {a : Act} {i : Nat} {d : DeviceId}

theorem events_cores (hc : s'.cores = s.cores) {k : Connection} (hk : k ∈ s'.connections) :
    ∃ k' ∈ s.connections, k'.events = k.events := by
  have hm : k.core ∈ s.cores := by
    rw [← hc]
    exact List.mem_map_of_mem hk
  obtain ⟨k', hk', he⟩ := List.mem_map.mp hm
  have hevents : k'.core.events = k.core.events := by rw [he]
  exact ⟨k', hk', hevents⟩

theorem Sized.frame (hi : Sized s) (hc : s'.cores = s.cores) (hq : s'.queue = s.queue)
    (ho : ∀ r pc, s'.orchestrator = .received r pc → ∃ pc', s.orchestrator = .received r pc')
    (hw : ∀ c, Watch.clip? s'.watch = some c → (Message.clipboard c).Fits) : Sized s' := by
  refine ⟨fun k hk c hm => ?_, fun i remote c hm => ?_, fun r pc hr => ?_, hw⟩
  · obtain ⟨k', hk', he⟩ := events_cores hc hk
    exact hi.events k' hk' c (by rw [he]; exact hm)
  · rw [hq] at hm
    exact hi.queue i remote c hm
  · obtain ⟨pc', hr'⟩ := ho r pc hr
    exact hi.received r pc' hr'

theorem Sized.connection {ca : ConnectionAct} (hi : Sized s) (h : s.connectionStep i ca = some (s', os)) : Sized s' := by
  unfold connectionStep at h
  split at h
  · cases h
  rename_i k hk
  split at h
  · cases h
  rename_i ses outs hs
  cases h
  refine ⟨fun k' hk' c hm => ?_, fun j remote c hm => ?_, hi.received, hi.watched⟩
  · rcases List.mem_or_eq_of_mem_set hk' with hk' | rfl
    · exact hi.events k' hk' c hm
    · rcases List.mem_append.mp hm with hm | hm
      · exact hi.events k (List.mem_of_getElem? hk) c hm
      · exact Session.step_clip_fits hs hm
  · rcases List.mem_append.mp hm with hm | hm
    · exact hi.queue j remote c hm
    · unfold connected at hm
      split at hm <;> simp at hm

theorem Sized.drain (hi : Sized s) (h : s.drain i = some (s', os)) : Sized s' := by
  unfold Daemon.drain at h
  split at h
  · cases h
  rename_i k hk
  split at h
  · cases h
  rename_i e rest he
  cases h
  have hmem : k ∈ s.connections := List.mem_of_getElem? hk
  refine ⟨fun k' hk' c hm => ?_, fun j remote c hm => ?_, hi.received, hi.watched⟩
  · rcases List.mem_or_eq_of_mem_set hk' with hk' | rfl
    · exact hi.events k' hk' c hm
    · exact hi.events k hmem c (by rw [he]; exact List.mem_cons_of_mem e hm)
  · rcases List.mem_append.mp hm with hm | hm
    · exact hi.queue j remote c hm
    · simp only [List.mem_singleton, Prod.mk.injEq, ListenerEvent.session.injEq] at hm
      obtain ⟨-, -, rfl⟩ := hm
      exact hi.events k hmem c (by rw [he]; exact List.mem_cons_self)

/-- The orchestrator turns to a clip only when that is next in its queue. -/
theorem dispatch_received {e : ListenerEvent} {r : Received} {pc : ReceivedPc} (ho : s.orchestrator = .idle)
    (h : s.dispatch i e = (s', os)) (hr : s'.orchestrator = .received r pc) :
    r.session = i ∧ e.session? = some (.clipboardReceived r.clip) := by
  have hidle : s.orchestrator ≠ .received r pc := by
    rw [ho]
    simp
  cases e with
  | connected remote handle =>
    cases h
    exact absurd hr hidle
  | session remote ev =>
    cases ev with
    | peerHandshake deviceId name caps token =>
      cases h
      cases hr
    | ponged rtt =>
      cases h
      exact absurd hr hidle
    | clipboardReceived clip =>
      simp only [dispatch] at h
      split at h
      · cases h
        cases hr
        exact ⟨rfl, rfl⟩
      · cases h
        exact absurd hr hidle
    | closed reason =>
      cases h
      simp only at hr
      split at hr <;> cases hr

theorem Sized.taken {e : ListenerEvent} {rest : List (Nat × ListenerEvent)} (hi : Sized s) (ho : s.orchestrator = .idle)
    (hq : s.queue = (i, e) :: rest) (h : ({ s with queue := rest } : Daemon).dispatch i e = (s', os)) : Sized s' := by
  obtain ⟨⟨_, _, _, hs'⟩, -⟩ := dispatch_frame h
  have hqueue : s'.queue = rest := by rw [hs']
  refine ⟨fun k hk c hm => ?_, fun j remote c hm => ?_, fun r pc hr => ?_, fun c hw => ?_⟩
  · rw [hs'] at hk
    exact hi.events k hk c hm
  · rw [hqueue] at hm
    exact hi.queue j remote c (by rw [hq]; exact List.mem_cons_of_mem _ hm)
  · obtain ⟨-, he⟩ := dispatch_received (s := { s with queue := rest }) ho h hr
    cases e with
    | connected remote handle => cases he
    | session remote ev =>
      cases he
      exact hi.queue i remote r.clip (by rw [hq]; exact List.mem_cons_self)
  · rw [hs'] at hw
    exact hi.watched c hw

theorem Sized.step (hi : Sized s) (h : step cfg s a = some (s', os)) : Sized s' := by
  cases ha : a.task with
  | net =>
    cases a with
    | advance dt =>
      cases h
      exact ⟨hi.events, hi.queue, hi.received, hi.watched⟩
    | accept remote spki =>
      simp only [Daemon.step, accept, Option.ite_none_right_eq_some, Option.some.injEq, Prod.mk.injEq] at h
      obtain ⟨-, rfl, -⟩ := h
      refine ⟨fun k hk c hm => ?_, hi.queue, hi.received, hi.watched⟩
      rcases List.mem_append.mp hk with hk | hk
      · exact hi.events k hk c hm
      · rw [List.mem_singleton.mp hk] at hm
        cases hm
    | connection i ca => exact hi.connection h
    | drain i => exact hi.drain h
    | _ => cases ha
  | clipboard =>
    cases a with
    | watch ok target =>
      obtain ⟨⟨_, _, _, _, hs'⟩, hc, -⟩ := watchStep_frame h
      refine hi.frame hc (by rw [hs']) (fun r pc hr => ⟨pc, by rw [hs'] at hr; exact hr⟩) fun c hw => ?_
      rcases (watchStep_clip h).1 hw with hw | hv
      · exact hi.watched c hw
      · exact clip_fits hv
    | probe =>
      simp only [Daemon.step, probe, Option.ite_none_left_eq_some, Option.some.injEq, Prod.mk.injEq] at h
      obtain ⟨-, rfl, -⟩ := h
      exact ⟨hi.events, hi.queue, hi.received, fun c hw => by cases hw⟩
    | watchEnds =>
      simp only [Daemon.step, watchEnds] at h
      split at h
      · cases h
        exact ⟨hi.events, hi.queue, hi.received, fun c hw => by cases hw⟩
      · cases h
    | copy c =>
      cases h
      exact ⟨hi.events, hi.queue, hi.received, hi.watched⟩
    | notify =>
      cases h
      exact ⟨hi.events, hi.queue, hi.received, hi.watched⟩
    | _ => cases ha
  | bus =>
    obtain ⟨⟨_, _, _, _, _, _, o, _, _, _, _, rfl, hor, -⟩, -⟩ := bus_frame h ha
    refine ⟨hi.events, hi.queue, fun r pc hr => ?_, hi.watched⟩
    rcases hor with rfl | ⟨channel, accept, rfl⟩
    · exact hi.received r pc hr
    · rcases answer_cases channel accept s.orchestrator with he | ⟨_, _, _, he⟩
      · exact hi.received r pc (he.symm.trans hr)
      · cases he.symm.trans hr
  | orchestrator =>
    cases a with
    | orchestrate ok target =>
      cases orchestrate_turn h with
      | taken j e rest ho hq hd => exact hi.taken ho hq hd
      | handshake hh pc _ hs =>
        obtain ⟨⟨_, _, _, _, _, _, _, _, _, rfl, hor⟩, -⟩ := handshakeStep_frame hs
        refine hi.frame rfl rfl (fun r pc hr => ?_) hi.watched
        rcases hor with rfl | ⟨_, rfl⟩ <;> cases hr
      | received r pc ho hr =>
        obtain ⟨⟨_, _, _, _, _, rfl, hor⟩, hc, -⟩ := receivedStep_frame hr
        refine hi.frame hc rfl (fun r' pc' hr' => ?_) hi.watched
        rcases hor with rfl | ⟨pc'', rfl⟩
        · cases hr'
        · cases hr'
          exact ⟨pc, ho⟩
      | closed id pc _ hc =>
        subst hc
        refine hi.frame ?_ ?_ (fun r pc' hr => ?_) ?_
        · cases pc <;> rfl
        · cases pc <;> rfl
        · cases pc <;> cases hr
        · cases pc <;> exact hi.watched
    | _ => cases ha

/-! ## Over a run -/

variable {file : Option PersistedState} {clipboard : Content} {C : List Obs → Daemon → Act → Prop}

theorem run_sized (h : Run (system cfg file clipboard) C tr s) : Sized s := by
  refine h.invariant (I := fun _ s => Sized s) (fun s h0 => ?_) fun _ _ _ _ _ _ hi _ hs => hi.step hs
  rw [h0]
  exact ⟨fun k hk => absurd hk List.not_mem_nil, fun _ _ _ hm => absurd hm List.not_mem_nil, fun _ _ hr => (by cases hr),
    fun _ hw => by cases hw⟩

theorem lt_of_remoteOf (h : (s.remoteOf i).isSome = true) : i < s.connections.length := by
  obtain ⟨remote, hr⟩ := Option.isSome_iff_exists.mp h
  obtain ⟨x, hx, -⟩ := Option.map_eq_some_iff.mp (show s.peers[i]?.map Prod.fst = some remote from hr)
  have hlt := get_lt hx
  unfold peers at hlt
  rwa [List.length_map] at hlt

theorem run_hands {loop : ClipLoop} {c : Clip} (hr : Run (system cfg file clipboard) C tr s)
    (h : step cfg s a = some (s', os)) (ho : .handed loop d i c ∈ os) :
    i < s.connections.length ∧ (Message.clipboard c).Fits := by
  refine ⟨lt_of_remoteOf (run_sends hr d i (handed_sends h ho)), ?_⟩
  have hi := run_sized hr
  rcases handed_step h ho with ⟨-, ok, rest, -, hw, -⟩ | ⟨-, ok, r, rest, -, hor, hc, -⟩
  · refine hi.watched c ?_
    rw [hw]
    rfl
  · rw [← hc]
    exact hi.received r _ hor

/-! ## One session of the daemon -/

def session (s : Daemon) (i : Nat) : Option Session := s.connections[i]?.map Connection.session

def outsOn (i : Nat) (tr : List Obs) : List Output :=
  tr.filterMap fun
    | .out j o => if j = i then some o else none
    | _ => none

def handedTo (i : Nat) (tr : List Obs) : List Clip :=
  tr.filterMap fun
    | .handed _ _ j c => if j = i then some c else none
    | _ => none

/-- What a step is for session `i`: nothing, its beginning, a step of its driving task or a clip for it. -/
inductive Part (cfg : Config) (i : Nat) (s s' : Daemon) (a : Act) (os : List Obs) : Prop
  | still : s'.session i = s.session i → outsOn i os = [] → handedTo i os = [] → (∀ ca, a ≠ .connection i ca) →
      Part cfg i s s' a os
  | accepted : s.session i = none → s'.session i = some (.new cfg.endpoint.machine) → outsOn i os = [] →
      handedTo i os = [] → (∀ ca, a ≠ .connection i ca) → Part cfg i s s' a os
  | drove (ca : ConnectionAct) (ses ses' : Session) (outs : List Output) : a = .connection i ca →
      s.session i = some ses → ses.step (ca.at_ s.now) = some (ses', outs) → s'.session i = some ses' →
      os = outs.map (.out i) → Part cfg i s s' a os
  | handed (loop : ClipLoop) (target : DeviceId) (c : Clip) : (∀ ca, a ≠ .connection i ca) →
      s'.session i = (s.session i).map (·.sendClipboard c) → os = [.handed loop target i c] → Part cfg i s s' a os

/-- Whatever the daemon emits outside of its sessions is no output of theirs. -/
theorem outsOn_nil (hos : ∀ o ∈ os, ∀ j x, o ≠ .out j x) : outsOn i os = [] := by
  unfold outsOn
  rw [List.filterMap_eq_nil_iff]
  intro o ho
  cases o with
  | out j x => exact absurd rfl (hos _ ho j x)
  | _ => rfl

theorem handedTo_nil (hos : ∀ o ∈ os, ∀ loop d j c, o ≠ .handed loop d j c) : handedTo i os = [] := by
  unfold handedTo
  rw [List.filterMap_eq_nil_iff]
  intro o ho
  cases o with
  | handed loop d j c => exact absurd rfl (hos _ ho loop d j c)
  | _ => rfl

/-- What is done outside of the network leaves the connections alone or hands a clip to one of them. -/
theorem step_hands (h : step cfg s a = some (s', os)) (ha : a.task ≠ .net) :
    s'.connections = s.connections ∧ (∀ o ∈ os, (∀ j x, o ≠ .out j x) ∧ ∀ loop d j c, o ≠ .handed loop d j c) ∨
      ∃ loop d j c, s'.connections = (s.sendClipboard j c).connections ∧ os = [.handed loop d j c] := by
  cases hat : a.task with
  | net => exact absurd hat ha
  | clipboard =>
    cases a with
    | watch ok target =>
      have hm : WatchMove cfg s ok target s.watch s' os := watchStep_move rfl h
      generalize s.watch = w at hm
      cases hm with
      | sends c rest j hj => exact Or.inr ⟨_, _, j, c, rfl, rfl⟩
      | _ => exact Or.inl ⟨rfl, by simp⟩
    | probe =>
      simp only [step, probe, Option.ite_none_left_eq_some, Option.some.injEq, Prod.mk.injEq] at h
      obtain ⟨-, rfl, rfl⟩ := h
      exact Or.inl ⟨rfl, by simp⟩
    | watchEnds =>
      simp only [step, watchEnds] at h
      split at h
      · cases h
        exact Or.inl ⟨rfl, by simp⟩
      · cases h
    | copy c =>
      cases h
      exact Or.inl ⟨rfl, by simp⟩
    | notify =>
      cases h
      exact Or.inl ⟨rfl, by simp⟩
    | _ => cases hat
  | bus =>
    obtain ⟨⟨_, _, _, _, _, _, _, _, _, _, _, rfl, -⟩, ho⟩ := bus_frame h hat
    refine Or.inl ⟨rfl, fun o hm => ⟨?_, ?_⟩⟩
    · rintro j x rfl
      cases ho _ hm
    · rintro loop d j c rfl
      cases ho _ hm
  | orchestrator =>
    cases a with
    | orchestrate ok target =>
      cases orchestrate_turn h with
      | taken j e rest _ _ hd =>
        obtain ⟨⟨_, _, _, rfl⟩, ho⟩ := dispatch_frame hd
        refine Or.inl ⟨rfl, fun o hm => ⟨?_, ?_⟩⟩
        · rintro j x rfl
          cases ho _ hm
        · rintro loop d j c rfl
          cases ho _ hm
      | handshake hh pc _ hs =>
        obtain ⟨⟨_, _, _, _, _, _, _, _, _, rfl, -⟩, ho⟩ := handshakeStep_frame hs
        refine Or.inl ⟨rfl, fun o hm => ⟨?_, ?_⟩⟩
        · rintro j x rfl
          cases ho _ hm
        · rintro loop d j c rfl
          cases ho _ hm
      | received r pc _ hr =>
        cases receivedStep_move hr with
        | relays rest j hj => exact Or.inr ⟨_, _, j, r.clip, rfl, rfl⟩
        | _ => exact Or.inl ⟨rfl, by simp⟩
      | closed id pc _ hc =>
        subst hc
        exact Or.inl ⟨by cases pc <;> rfl, by simp⟩
    | _ => cases hat

theorem session_sendClipboard (j : Nat) (c : Clip) :
    (s.sendClipboard j c).session i = if j = i then (s.session i).map (·.sendClipboard c) else s.session i := by
  unfold session Daemon.sendClipboard
  rw [List.getElem?_modify]
  by_cases hj : j = i
  · simp only [hj, if_true]
    cases s.connections[i]? <;> rfl
  · simp only [hj, if_false]
    cases s.connections[i]? <;> rfl

theorem session_set {j : Nat} {k k' : Connection} (hj : s.connections[j]? = some k) (hi : j = i → k'.session = k.session) :
    (s.connections.set j k')[i]?.map Connection.session = s.session i := by
  unfold session
  by_cases hji : j = i
  · subst hji
    rw [List.getElem?_set_self (get_lt hj), hj, Option.map_some, Option.map_some, hi rfl]
  · rw [List.getElem?_set_ne hji]

theorem step_part (h : step cfg s a = some (s', os)) (i : Nat) : Part cfg i s s' a os := by
  by_cases ha : a.task = .net
  · cases a with
    | advance dt =>
      cases h
      exact .still rfl rfl rfl (by simp)
    | accept remote spki =>
      simp only [step, accept, Option.ite_none_right_eq_some, Option.some.injEq, Prod.mk.injEq] at h
      obtain ⟨-, rfl, rfl⟩ := h
      rcases Nat.lt_trichotomy i s.connections.length with hlt | rfl | hgt
      · refine .still ?_ rfl rfl (by simp)
        unfold session
        rw [List.getElem?_append_left hlt]
      · refine .accepted ?_ ?_ rfl rfl (by simp)
        · unfold session
          rw [List.getElem?_eq_none (Nat.le_refl _)]
          rfl
        · unfold session
          rw [List.getElem?_concat_length]
          rfl
      · refine .still ?_ rfl rfl (by simp)
        unfold session
        rw [List.getElem?_eq_none (Nat.le_of_lt hgt), List.getElem?_eq_none]
        rw [List.length_append]
        exact hgt
    | connection j ca =>
      simp only [step, connectionStep] at h
      split at h
      · cases h
      rename_i k hk
      split at h
      · cases h
      rename_i ses outs hs
      cases h
      by_cases hj : j = i
      · subst hj
        refine .drove ca k.session ses outs rfl ?_ hs ?_ rfl
        · unfold session
          rw [hk]
          rfl
        · unfold session
          rw [List.getElem?_set_self (get_lt hk)]
          rfl
      · refine .still (session_set hk fun hji => absurd hji hj) ?_ (handedTo_nil (by simp)) (by simp [hj])
        unfold outsOn
        rw [List.filterMap_map, List.filterMap_eq_nil_iff]
        intro o _
        simp [hj]
    | drain j =>
      simp only [step, drain] at h
      split at h
      · cases h
      rename_i k hk
      split at h
      · cases h
      cases h
      exact .still (session_set hk fun _ => rfl) rfl rfl (by simp)
    | _ => cases ha
  · have hne : ∀ ca, a ≠ .connection i ca := by
      rintro ca rfl
      exact ha rfl
    rcases step_hands h ha with ⟨hc, hos⟩ | ⟨loop, d, j, c, hc, rfl⟩
    · refine .still ?_ (outsOn_nil fun o ho => (hos o ho).1) (handedTo_nil fun o ho => (hos o ho).2) hne
      unfold session
      rw [hc]
    · have hses : s'.session i = (s.sendClipboard j c).session i := by
        unfold session
        rw [hc]
      rw [session_sendClipboard] at hses
      by_cases hj : j = i
      · subst hj
        rw [if_pos rfl] at hses
        exact .handed loop d c hne hses rfl
      · rw [if_neg hj] at hses
        exact .still hses rfl (by simp [handedTo, hj]) hne

end

end Daemon

end PenguinSync
