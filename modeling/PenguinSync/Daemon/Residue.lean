import PenguinSync.Daemon.Attribution
import PenguinSync.Daemon.Connected
import PenguinSync.Daemon.Reach

/-!
# What a closed session leaves behind

The maps of the orchestrator are filled by the events of a session and emptied
by its `Closed`. A connection is announced before its first event, so the last
word on an address is a `Closed` once all its sessions are gone.
-/

namespace PenguinSync

open Lts

namespace Daemon

def Unstarted (i : Nat) (cs : List Connection) : Prop := ∃ c, cs[i]? = some c ∧ c.session.stage = .start

/-- `Connected` comes before every event of its session, and only before its `Closed` is taken. -/
structure QueueInv (tr : List Obs) (s : Daemon) : Prop where
  fresh : ∀ i, Unstarted i s.connections → s.pending i = [] ∧ .closed i ∉ tr
  opened : ∀ i remote j, (i, .connected remote j) ∈ s.queue →
    j = i ∧ s.remoteOf i = some remote ∧ .closed i ∉ tr
  ordered : s.queue.Pairwise fun x y => x.1 = y.1 → x.2.session? ≠ none → y.2.session? ≠ none

section
variable {cfg : Config} {s s' : Daemon} {tr os : List Obs} {i : Nat} {d : DeviceId} {a : Act} {remote : SocketAddr}

theorem unstarted_cores (hc : s'.cores = s.cores) (h : Unstarted i s'.connections) : Unstarted i s.connections := by
  obtain ⟨c', hci, hd⟩ := h
  have h := congrArg (·[i]?) hc
  simp only [cores, List.getElem?_map, hci, Option.map_some] at h
  obtain ⟨c, hc', he⟩ := Option.map_eq_some_iff.mp h.symm
  refine ⟨c, hc', ?_⟩
  have := congrArg (fun c => c.session.stage) he
  exact this.trans hd

theorem pending_frame (hq : s'.queue = s.queue) (hc : s'.cores = s.cores) (i : Nat) :
    s'.pending i = s.pending i := by
  unfold pending
  rw [hq, undrained_cores hc]

theorem remoteOf_cores (hc : s'.cores = s.cores) (i : Nat) : s'.remoteOf i = s.remoteOf i := by
  unfold remoteOf
  rw [peers_cores hc]

theorem QueueInv.frame (hi : QueueInv tr s) (hq : s'.queue = s.queue) (hc : s'.cores = s.cores)
    (hos : ∀ i, .closed i ∉ os) : QueueInv (tr ++ os) s' := by
  have hclosed : ∀ {i}, .closed i ∉ tr → .closed i ∉ tr ++ os := fun hn hm =>
    (List.mem_append.mp hm).elim hn (hos _)
  refine ⟨fun i hu => ?_, fun i remote j hx => ?_, hq ▸ hi.ordered⟩
  · obtain ⟨hp, hn⟩ := hi.fresh i (unstarted_cores hc hu)
    exact ⟨(pending_frame hq hc i).trans hp, hclosed hn⟩
  · rw [hq] at hx
    obtain ⟨hj, hr, hn⟩ := hi.opened i remote j hx
    exact ⟨hj, (remoteOf_cores hc i).trans hr, hclosed hn⟩

theorem session_started {ses ses' : Session} {outs : List Output} {b : Session.Act}
    (h : ses.step b = some (ses', outs)) : ses'.stage ≠ .start := by
  have hgive : ∀ (t : Session) ev nonce clock write, (t.give ev nonce clock write).1.stage ≠ .start := by
    intro t ev nonce clock write
    unfold Session.give
    simp only
    split <;> simp
  cases Session.step_move h with
  | gives ev nonce clock write _ hg =>
    have hs := hgive ses ev nonce clock write
    rwa [hg] at hs
  | commands c cs write _ _ hg =>
    have hs := hgive { ses with commands := cs } (.sendClipboard c) 0 0 write
    rwa [hg] at hs
  | closes r _ hc =>
    cases hc
    simp

theorem not_unstarted_of_step {c : Connection} {ses : Session} {outs : List Output} {b : Session.Act}
    (h : c.session.step b = some (ses, outs)) {c' : Connection} (hc : c'.session = ses) {cs : List Connection}
    (hi : cs[i]? = some c) : ¬ Unstarted i (cs.set i c') := by
  rintro ⟨c'', hc'', hstart⟩
  rw [List.getElem?_set_self (get_lt hi), Option.some.injEq] at hc''
  rw [← hc'', hc] at hstart
  exact session_started h hstart

theorem unstarted_set {c' : Connection} {j : Nat} {cs : List Connection} (h : i ≠ j)
    (hu : Unstarted j (cs.set i c')) : Unstarted j cs := by
  obtain ⟨c, hc, hs⟩ := hu
  rw [List.getElem?_set_ne h] at hc
  exact ⟨c, hc, hs⟩

theorem QueueInv.accept {spki : List UInt8} (hi : QueueInv tr s) (hn : NotesInv tr s)
    (h : step cfg s (.accept remote spki) = some (s', os)) : QueueInv (tr ++ os) s' := by
  have hmono : ∀ {i r}, s.remoteOf i = some r → s'.remoteOf i = some r := fun hr => remoteOf_step h hr
  simp only [step, Daemon.accept, Option.ite_none_right_eq_some, Option.some.injEq, Prod.mk.injEq] at h
  obtain ⟨-, rfl, rfl⟩ := h
  rw [List.append_nil]
  refine ⟨fun i hu => ?_, fun i r j hx => ?_, hi.ordered⟩
  · obtain ⟨c, hc, hs⟩ := hu
    rcases get_of_append hc with hc' | ⟨hge, -⟩
    · obtain ⟨hp, hcl⟩ := hi.fresh i ⟨c, hc', hs⟩
      refine ⟨?_, hcl⟩
      unfold Daemon.pending undrained at hp ⊢
      rw [hc'] at hp
      rw [hc]
      exact hp
    · have hnone : s.remoteOf i = none := by
        unfold remoteOf peers
        rw [List.getElem?_map, List.getElem?_eq_none hge]
        rfl
      refine ⟨?_, fun hm => ?_⟩
      · have hq : queued i s.queue = [] := by
          refine List.filterMap_eq_nil_iff.mpr fun x hx => ?_
          obtain ⟨k, e⟩ := x
          cases e with
          | connected r j => exact ite_self none
          | session r e =>
            refine if_neg fun hk => ?_
            have hr := hn.queued k r e hx
            rw [show k = i from hk, hnone] at hr
            cases hr
        have hc' : c.events = [] := by
          rw [List.getElem?_append_right hge] at hc
          rw [List.mem_singleton.mp (List.mem_of_getElem? hc)]
        unfold Daemon.pending
        rw [undrained_of hc, hq, hc', List.append_nil]
      · have hr := hn.known _ hm i rfl
        rw [hnone] at hr
        cases hr
  · obtain ⟨hj, hr, hcl⟩ := hi.opened i r j hx
    exact ⟨hj, hmono hr, hcl⟩

theorem QueueInv.connection {ca : ConnectionAct} (hi : QueueInv tr s)
    (h : step cfg s (.connection i ca) = some (s', os)) : QueueInv (tr ++ os) s' := by
  have hmono : ∀ {j r}, s.remoteOf j = some r → s'.remoteOf j = some r := fun hr => remoteOf_step h hr
  simp only [step, connectionStep] at h
  split at h
  · cases h
  rename_i c hc
  split at h
  · cases h
  rename_i ses outs hs
  cases h
  have hclosed : ∀ {j}, .closed j ∉ tr → .closed j ∉ tr ++ outs.map (.out i) := fun hn hm =>
    (List.mem_append.mp hm).elim hn (by simp)
  have hnew : ∀ k r j, (k, .connected r j) ∈ Daemon.connected i c ca → k = i ∧ r = c.remote ∧ j = i ∧
      Unstarted i s.connections := by
    intro k r j hx
    cases ca with
    | start write =>
      simp only [Daemon.connected, List.mem_singleton, Prod.mk.injEq, ListenerEvent.connected.injEq] at hx
      refine ⟨hx.1, hx.2.1, hx.2.2, c, hc, ?_⟩
      simp only [ConnectionAct.at_, Session.step, Option.ite_none_right_eq_some] at hs
      exact hs.1
    | _ => cases hx
  refine ⟨fun j hu => ?_, fun k r j hx => ?_, ?_⟩
  · by_cases hij : i = j
    · subst hij
      exact absurd hu (not_unstarted_of_step hs rfl hc)
    · obtain ⟨hp, hcl⟩ := hi.fresh j (unstarted_set hij hu)
      have hq : queued j (Daemon.connected i c ca) = [] := by
        unfold Daemon.connected
        split <;> simp [queued, hij]
      refine ⟨?_, hclosed hcl⟩
      unfold Daemon.pending at hp ⊢
      rw [queued_append, hq, List.append_nil, undrained_set_ne hij]
      exact hp
  · rcases List.mem_append.mp hx with hx | hx
    · obtain ⟨hj, hr, hcl⟩ := hi.opened k r j hx
      exact ⟨hj, hmono hr, hclosed hcl⟩
    · obtain ⟨rfl, rfl, rfl, hu⟩ := hnew k r j hx
      refine ⟨rfl, hmono ?_, hclosed (hi.fresh _ hu).2⟩
      unfold remoteOf peers
      rw [List.getElem?_map, hc]
      rfl
  · refine List.pairwise_append.mpr ⟨hi.ordered, ?_, fun x hx y hy hxy hxs => ?_⟩
    · unfold Daemon.connected
      split
      · exact List.pairwise_singleton _ _
      · exact List.Pairwise.nil
    · obtain ⟨k, e⟩ := y
      cases e with
      | session r e => simp [ListenerEvent.session?]
      | connected r j =>
        -- the task has only begun, so nothing of it is in the queue
        obtain ⟨rfl, -, -, hu⟩ := hnew k r j hy
        have hp := (hi.fresh _ hu).1
        have hq := List.filterMap_eq_nil_iff.mp (List.append_eq_nil_iff.mp hp).1 x hx
        rw [if_pos hxy] at hq
        exact absurd hq hxs

theorem QueueInv.drain (hi : QueueInv tr s) (h : step cfg s (.drain i) = some (s', os)) :
    QueueInv (tr ++ os) s' := by
  have hmono : ∀ {j r}, s.remoteOf j = some r → s'.remoteOf j = some r := fun hr => remoteOf_step h hr
  simp only [step, Daemon.drain] at h
  split at h
  · cases h
  rename_i c hc
  split at h
  · cases h
  rename_i e rest he
  cases h
  rw [List.append_nil]
  refine ⟨fun j hu => ?_, fun k r j hx => ?_, ?_⟩
  · by_cases hij : i = j
    · subst hij
      have hu' : Unstarted i s.connections := by
        obtain ⟨c', hc', hs⟩ := hu
        rw [List.getElem?_set_self (get_lt hc), Option.some.injEq] at hc'
        exact ⟨c, hc, by rw [← hs, ← hc']⟩
      have hp := (hi.fresh i hu').1
      unfold Daemon.pending at hp
      rw [undrained_of hc, he] at hp
      simp at hp
    · obtain ⟨hp, hcl⟩ := hi.fresh j (unstarted_set hij hu)
      refine ⟨?_, hcl⟩
      unfold Daemon.pending at hp ⊢
      rw [queued_append, undrained_set_ne hij]
      simpa [queued, hij] using hp
  · rcases List.mem_append.mp hx with hx | hx
    · obtain ⟨hj, hr, hcl⟩ := hi.opened k r j hx
      exact ⟨hj, hmono hr, hcl⟩
    · simp at hx
  · refine List.pairwise_append.mpr ⟨hi.ordered, List.pairwise_singleton _ _, fun x _ y hy _ _ => ?_⟩
    rw [List.mem_singleton.mp hy]
    simp [ListenerEvent.session?]

theorem QueueInv.taken {e : ListenerEvent} {rest : List (Nat × ListenerEvent)} (hi : QueueInv tr s)
    (hq : s.queue = (i, e) :: rest)
    (h : ({ s with queue := rest } : Daemon).dispatch i e = (s', os)) : QueueInv (tr ++ os) s' := by
  obtain ⟨hq', hc'⟩ : s'.queue = rest ∧ s'.connections = s.connections := by
    obtain ⟨⟨_, _, _, hs'⟩, -⟩ := dispatch_frame h
    rw [hs']
    exact ⟨rfl, rfl⟩
  have hord := hi.ordered
  rw [hq, List.pairwise_cons] at hord
  have hos : ∀ j, .closed j ∈ os → j = i ∧ ∃ remote r, e = .session remote (.closed r) := by
    intro j hm
    rw [show os = (({ s with queue := rest } : Daemon).dispatch i e).2 by rw [h]] at hm
    obtain ⟨rfl, he⟩ := dispatch_closed hm
    exact ⟨rfl, he⟩
  refine ⟨fun j hu => ?_, fun k r j hx => ?_, hq' ▸ hord.2⟩
  · rw [hc'] at hu
    obtain ⟨hp, hcl⟩ := hi.fresh j hu
    have hpend : s.pending j = (if i = j then e.session?.toList else []) ++ s'.pending j := by
      unfold Daemon.pending
      rw [hq, hq', hc']
      by_cases hij : i = j
      · subst hij
        rw [queued_cons_self, if_pos rfl, List.append_assoc]
      · rw [queued_cons_ne hij, if_neg hij, List.nil_append]
    rw [hpend] at hp
    obtain ⟨hhead, htail⟩ := List.append_eq_nil_iff.mp hp
    refine ⟨htail, fun hm => ?_⟩
    rcases List.mem_append.mp hm with hm | hm
    · exact hcl hm
    · obtain ⟨rfl, remote, r, rfl⟩ := hos j hm
      simp [ListenerEvent.session?] at hhead
  · rw [hq'] at hx
    obtain ⟨hj, hr, hcl⟩ := hi.opened k r j (by rw [hq]; exact List.mem_cons_of_mem _ hx)
    refine ⟨hj, ?_, fun hm => ?_⟩
    · unfold remoteOf peers at hr ⊢
      rwa [hc']
    · rcases List.mem_append.mp hm with hm | hm
      · exact hcl hm
      · obtain ⟨rfl, remote, r', rfl⟩ := hos k hm
        have := hord.1 _ hx rfl (by simp [ListenerEvent.session?])
        exact this rfl

theorem QueueInv.step (hi : QueueInv tr s) (hn : NotesInv tr s)
    (h : step cfg s a = some (s', os)) : QueueInv (tr ++ os) s' := by
  cases ha : a.task with
  | net =>
    cases a with
    | advance dt =>
      cases h
      exact hi.frame rfl rfl (by simp)
    | accept remote spki => exact hi.accept hn h
    | connection i ca => exact hi.connection h
    | drain i => exact hi.drain h
    | _ => cases ha
  | clipboard =>
    obtain ⟨⟨_, _, _, _, _, _, rfl⟩, hc, ho⟩ := clipboard_frame h ha
    exact hi.frame rfl hc fun i hm => by cases ho _ hm
  | bus =>
    obtain ⟨⟨_, _, _, _, _, _, _, _, _, _, _, rfl, -⟩, ho⟩ := bus_frame h ha
    exact hi.frame rfl rfl fun i hm => by cases ho _ hm
  | orchestrator =>
    cases a with
    | orchestrate ok target =>
      cases orchestrate_turn h with
      | taken i e rest _ hq hd => exact hi.taken hq hd
      | handshake hh pc _ hs =>
        obtain ⟨⟨_, _, _, _, _, _, _, _, _, rfl, -⟩, ho⟩ := handshakeStep_frame hs
        exact hi.frame rfl rfl fun i hm => by cases ho _ hm
      | received r pc _ hr =>
        obtain ⟨⟨_, _, _, _, _, rfl, -⟩, hc, ho⟩ := receivedStep_frame hr
        exact hi.frame rfl hc fun i hm => by cases ho _ hm
      | closed id pc _ hc =>
        subst hc
        cases pc <;> exact hi.frame rfl rfl (by simp)
    | _ => cases ha

/-! ## The two maps by address -/

/-- An entry under an address is that of a session from there whose `Closed` was not taken. -/
structure LiveInv (tr : List Obs) (s : Daemon) : Prop where
  handle : ∀ remote j, s.remoteHandles.lookup remote = some j → s.remoteOf j = some remote ∧ .closed j ∉ tr
  device : ∀ remote d, s.remoteToDevice.lookup remote = some d →
    ∃ i, s.remoteOf i = some remote ∧ .recorded i d ∈ tr ∧ .closed i ∉ tr

theorem LiveInv.keep (hi : LiveInv tr s) (hh : ∀ r j, s'.remoteHandles.lookup r = some j → s.remoteHandles.lookup r = some j)
    (hd : ∀ r d, s'.remoteToDevice.lookup r = some d → s.remoteToDevice.lookup r = some d)
    (hr : ∀ i r, s.remoteOf i = some r → s'.remoteOf i = some r) (hos : ∀ i, .closed i ∉ os) :
    LiveInv (tr ++ os) s' := by
  have hclosed : ∀ {i}, .closed i ∉ tr → .closed i ∉ tr ++ os := fun hn hm =>
    (List.mem_append.mp hm).elim hn (hos _)
  refine ⟨fun r j hx => ?_, fun r d hx => ?_⟩
  · obtain ⟨hrj, hcl⟩ := hi.handle r j (hh r j hx)
    exact ⟨hr j r hrj, hclosed hcl⟩
  · obtain ⟨i, hri, hrec, hcl⟩ := hi.device r d (hd r d hx)
    exact ⟨i, hr i r hri, List.mem_append_left _ hrec, hclosed hcl⟩

theorem LiveInv.step (hi : LiveInv tr s) (hq : QueueInv tr s) (hn : NotesInv tr s) (hst : StreamInv tr s)
    (h : step cfg s a = some (s', os)) : LiveInv (tr ++ os) s' := by
  have hmono : ∀ i r, s.remoteOf i = some r → s'.remoteOf i = some r := fun i r hr => remoteOf_step h hr
  rcases maps_step h with ⟨hmd, hmh, hos⟩ | ⟨ok, target, i, e, rest, -, -, hqueue, hd⟩
  · exact hi.keep (by rw [hmh]; exact fun _ _ hx => hx) (by rw [hmd]; exact fun _ _ hx => hx) hmono
      fun i hm => by cases hos _ hm
  cases e with
  | connected r j =>
    obtain ⟨rfl, hr, hcl⟩ := hq.opened i r j (by rw [hqueue]; exact List.mem_cons_self)
    cases hd
    rw [List.append_nil]
    refine ⟨fun r' j' hx => ?_, fun r' d hx => ?_⟩
    · rcases HashMap.lookup_insert_some.mp hx with ⟨rfl, rfl⟩ | ⟨-, hx⟩
      · exact ⟨hmono _ _ hr, hcl⟩
      · obtain ⟨hr', hcl'⟩ := hi.handle r' j' hx
        exact ⟨hmono _ _ hr', hcl'⟩
    · obtain ⟨k, hr', hrest⟩ := hi.device r' d hx
      exact ⟨k, hmono _ _ hr', hrest⟩
  | session r ev =>
    have hr : s.remoteOf i = some r := hn.queued i r ev (by rw [hqueue]; exact List.mem_cons_self)
    cases ev with
    | peerHandshake deviceId name caps token =>
      have hcl : .closed i ∉ tr := hst.taken_open hqueue
      cases hd
      refine ⟨fun r' j' hx => ?_, fun r' d hx => ?_⟩
      · obtain ⟨hr', hcl'⟩ := hi.handle r' j' hx
        exact ⟨hmono _ _ hr', by simpa using hcl'⟩
      · rcases HashMap.lookup_insert_some.mp hx with ⟨rfl, rfl⟩ | ⟨-, hx⟩
        · exact ⟨i, hmono _ _ hr, by simp, by simpa using hcl⟩
        · obtain ⟨k, hr', hrec, hcl'⟩ := hi.device r' d hx
          exact ⟨k, hmono _ _ hr', by simp [hrec], by simpa using hcl'⟩
    | ponged rtt =>
      cases hd
      exact hi.keep (fun _ _ hx => hx) (fun _ _ hx => hx) hmono (by simp)
    | clipboardReceived clip =>
      simp only [dispatch] at hd
      split at hd <;> (cases hd; exact hi.keep (fun _ _ hx => hx) (fun _ _ hx => hx) hmono (by simp))
    | closed reason =>
      cases hd
      -- whoever is noted under another address is another session
      have hother : ∀ {k r'}, r' ≠ r → s.remoteOf k = some r' → .closed k ∉ tr → .closed k ∉ tr ++ [Obs.closed i] := by
        intro k r' hne hk hcl hm
        rcases List.mem_append.mp hm with hm | hm
        · exact hcl hm
        · rw [List.mem_singleton, Obs.closed.injEq] at hm
          rw [hm, hr, Option.some.injEq] at hk
          exact hne hk.symm
      refine ⟨fun r' j' hx => ?_, fun r' d hx => ?_⟩
      · obtain ⟨hne, hx⟩ := HashMap.lookup_erase_some.mp hx
        obtain ⟨hr', hcl⟩ := hi.handle r' j' hx
        exact ⟨hmono _ _ hr', hother hne hr' hcl⟩
      · obtain ⟨hne, hx⟩ := HashMap.lookup_erase_some.mp hx
        obtain ⟨k, hr', hrec, hcl⟩ := hi.device r' d hx
        exact ⟨k, hmono _ _ hr', List.mem_append_left _ hrec, hother hne hr' hcl⟩

variable {file : Option PersistedState} {clipboard : Content} {C : List Obs → Daemon → Act → Prop}

theorem run_queueInv (h : Run (system cfg file clipboard) C tr s) : QueueInv tr s := by
  refine h.invariant (fun s h0 => ?_) (fun _ _ _ _ _ hr hi _ hs => hi.step (run_notes hr) hs)
  rw [h0]
  refine ⟨?_, by simp [initial], List.Pairwise.nil⟩
  rintro i ⟨c, hc, -⟩
  simp [initial] at hc

theorem run_live (h : Run (system cfg file clipboard) C tr s) : LiveInv tr s := by
  refine h.invariant (fun s h0 => ?_)
    (fun _ _ _ _ _ hr hi _ hs => hi.step (run_queueInv hr) (run_notes hr) (run_streams hr) hs)
  rw [h0]
  exact ⟨by simp [initial], by simp [initial]⟩

/-- Whoever a clip would be sent to has a session there is. -/
theorem run_sends (h : Run (system cfg file clipboard) C tr s) : ∀ d i, s.Sends d i → (s.remoteOf i).isSome = true := by
  refine h.invariant (I := fun _ s => ∀ d i, s.Sends d i → (s.remoteOf i).isSome = true) (fun s h0 d i hx => ?_)
    (fun tr s a s' os hr ih _ hs d i hx => ?_)
  · rw [h0] at hx
    simp [Sends, initial, Watch.targets, Orchestrator.targets] at hx
  · have hsome : (s.remoteOf i).isSome = true := by
      rcases sends_step hs hx with hx | ⟨hh, -, -, hk, -⟩
      · exact ih d i hx
      · rw [((run_live hr).handle _ _ hk).1]
        rfl
    obtain ⟨remote, hr'⟩ := Option.isSome_iff_exists.mp hsome
    rw [remoteOf_step hs hr']
    rfl

/-- So has the clip in hand. -/
theorem run_received (h : Run (system cfg file clipboard) C tr s) :
    ∀ r pc, s.orchestrator = .received r pc → (s.remoteOf r.session).isSome = true := by
  refine h.invariant (I := fun _ s => ∀ r pc, s.orchestrator = .received r pc → (s.remoteOf r.session).isSome = true)
    (fun s h0 r pc hx => ?_) (fun tr s a s' os hr ih _ hs r pc hx => ?_)
  · rw [h0] at hx
    cases hx
  · have hsome : (s.remoteOf r.session).isSome = true := by
      rcases received_step hs hx with ⟨pc', hx⟩ | ⟨-, ok, target, remote, rest, -, -, hq, -⟩
      · exact ih r pc' hx
      · rw [(run_notes hr).queued _ _ _ (by rw [hq]; exact List.mem_cons_self ..)]
        rfl
    obtain ⟨remote, hr'⟩ := Option.isSome_iff_exists.mp hsome
    rw [remoteOf_step hs hr']
    rfl

/-! ## Devices that count as connected -/

def Noted (s : Daemon) (d : DeviceId) : Prop := ∃ remote, s.remoteToDevice.lookup remote = some d

/-- No session reports a device under an address that is noted for another. -/
def apart (s : Daemon) : Act → Bool
  | .orchestrate .. =>
    match s.orchestrator, s.queue with
    | .idle, (_, .session remote (.peerHandshake d ..)) :: _ => (s.remoteToDevice.lookup remote).all (· = d)
    | _, _ => true
  | _ => true

/-- Only a device whose address is noted is connected, or one the orchestrator is about to mark as gone. -/
structure NotedInv (s : Daemon) : Prop where
  handling : ∀ h, Orchestrator.handling? s.orchestrator = some h →
    s.remoteToDevice.lookup h.remote = some h.deviceId
  connected : ∀ d, d ∈ s.connectedDevices → s.Noted d ∨ s.orchestrator = .closed d .disconnect
  flag : ∀ d o, s.objects.lookup d = some o → o.connected = true → s.Noted d ∨ ∃ pc, s.orchestrator = .closed d pc

/-- A step that notes what was noted, and connects only what is noted. -/
theorem NotedInv.mono (hi : NotedInv s) (hr : s'.remoteToDevice = s.remoteToDevice)
    (hh : ∀ h, Orchestrator.handling? s'.orchestrator = some h → Orchestrator.handling? s.orchestrator = some h)
    (hc : ∀ d pc, s.orchestrator = .closed d pc → s'.orchestrator = .closed d pc)
    (hd : ∀ d, d ∈ s'.connectedDevices → d ∈ s.connectedDevices ∨ s.Noted d)
    (hf : ∀ d o, s'.objects.lookup d = some o → o.connected = true →
      (∃ o', s.objects.lookup d = some o' ∧ o'.connected = true) ∨ s.Noted d) : NotedInv s' := by
  have hnoted : ∀ {d}, s.Noted d → s'.Noted d := fun hn => by
    unfold Noted
    rw [hr]
    exact hn
  refine ⟨fun h hx => ?_, fun d hx => ?_, fun d o hx ho => ?_⟩
  · rw [hr]
    exact hi.handling h (hh h hx)
  · rcases hd d hx with hx | hn
    · rcases hi.connected d hx with hn | hcl
      · exact Or.inl (hnoted hn)
      · exact Or.inr (hc d _ hcl)
    · exact Or.inl (hnoted hn)
  · rcases hf d o hx ho with ⟨o', hx, ho⟩ | hn
    · rcases hi.flag d o' hx ho with hn | ⟨pc, hcl⟩
      · exact Or.inl (hnoted hn)
      · exact Or.inr ⟨pc, hc d pc hcl⟩
    · exact Or.inl (hnoted hn)

theorem NotedInv.closed {id : DeviceId} {pc : ClosedPc} (hi : NotedInv s) (ho : s.orchestrator = .closed id pc) :
    NotedInv (s.closedStep id pc) := by
  cases pc with
  | disconnect =>
    refine ⟨fun h hx => (by cases hx), fun d hx => ?_, fun d o hx hc => ?_⟩
    · obtain ⟨i, hx⟩ := HashMap.mem_iff.mp hx
      obtain ⟨hne, hx⟩ := HashMap.lookup_erase_some.mp hx
      rcases hi.connected d (HashMap.mem_iff.mpr ⟨i, hx⟩) with hn | hcl
      · exact Or.inl hn
      · rw [ho] at hcl
        cases hcl
        exact absurd rfl hne
    · rcases hi.flag d o hx hc with hn | ⟨pc, hcl⟩
      · exact Or.inl hn
      · rw [ho] at hcl
        cases hcl
        exact Or.inr ⟨.setConnected, rfl⟩
  | setConnected =>
    refine ⟨fun h hx => (by cases hx), fun d hx => ?_, fun d o hx hc => ?_⟩
    · rcases hi.connected d hx with hn | hcl
      · exact Or.inl hn
      · rw [ho] at hcl
        cases hcl
    · rcases lookup_setConnected.mp hx with ⟨-, o', -, rfl⟩ | ⟨hne, hx⟩
      · cases hc
      · rcases hi.flag d o hx hc with hn | ⟨pc, hcl⟩
        · exact Or.inl hn
        · rw [ho] at hcl
          cases hcl
          exact absurd rfl hne

theorem NotedInv.handshake {h : Handling} {pc : HandshakePc} {ok : Bool} (hi : NotedInv s)
    (ho : s.orchestrator = .handshake h pc) (hs : s.handshakeStep h ok pc = some (s', os)) : NotedInv s' := by
  have hnoted : s.Noted h.deviceId := ⟨h.remote, hi.handling h (by rw [ho]; rfl)⟩
  have hsame : ∀ {h'}, Orchestrator.handling? (.handshake h pc) = some h' →
      Orchestrator.handling? s.orchestrator = some h' := fun hx => by rw [ho]; exact hx
  have hnot : ∀ d pc', s.orchestrator = .closed d pc' → s'.orchestrator = .closed d pc' := fun d pc' hx => by
    rw [ho] at hx
    cases hx
  cases handshakeStep_move hs with
  | creates =>
    refine hi.mono rfl (fun _ hx => hsame hx) hnot (fun _ hx => Or.inl hx) fun d o hx hc => Or.inl ⟨o, ?_, hc⟩
    dsimp only [Daemon.handshake] at hx
    split at hx
    · exact hx
    · rcases HashMap.lookup_insert_some.mp hx with ⟨-, rfl⟩ | ⟨-, hx⟩
      · cases hc
      · exact hx
  | sets =>
    refine hi.mono rfl (fun _ hx => hsame hx) hnot (fun _ hx => Or.inl hx) fun d o hx hc => ?_
    rcases lookup_setConnected.mp hx with ⟨rfl, -⟩ | ⟨-, hx⟩
    · exact Or.inr hnoted
    · exact Or.inl ⟨o, hx, hc⟩
  | promotes j _ =>
    refine hi.mono rfl (fun _ hx => by cases hx) hnot (fun d hx => ?_) fun d o hx hc => Or.inl ⟨o, hx, hc⟩
    rcases (Finmap.mem_insert).mp hx with rfl | hx
    · exact Or.inr hnoted
    · exact Or.inl hx
  | persists =>
    rw [persistState_eq]
    exact hi.mono rfl (fun _ hx => hsame hx) hnot (fun _ hx => Or.inl hx) fun d o hx hc => Or.inl ⟨o, hx, hc⟩
  | tokenless | unissued | unredeemed | rejected | timedOut | handleless =>
    exact hi.mono rfl (fun _ hx => by cases hx) hnot (fun _ hx => Or.inl hx) fun d o hx hc => Or.inl ⟨o, hx, hc⟩
  | _ => exact hi.mono rfl (fun _ hx => hsame hx) hnot (fun _ hx => Or.inl hx) fun d o hx hc => Or.inl ⟨o, hx, hc⟩

theorem NotedInv.taken {e : ListenerEvent} {rest : List (Nat × ListenerEvent)} {ok : Bool} {target : DeviceId}
    (hi : NotedInv s) (ho : s.orchestrator = .idle) (hq : s.queue = (i, e) :: rest)
    (ha : apart s (.orchestrate ok target) = true)
    (h : ({ s with queue := rest } : Daemon).dispatch i e = (s', os)) : NotedInv s' := by
  have hconn : ∀ d, d ∈ s.connectedDevices → s.Noted d := fun d hx =>
    (hi.connected d hx).resolve_right (by simp [ho])
  have hflag : ∀ d o, s.objects.lookup d = some o → o.connected = true → s.Noted d := fun d o hx hc =>
    (hi.flag d o hx hc).resolve_right (by simp [ho])
  have hidle : ∀ {t : Daemon}, t.remoteToDevice = s.remoteToDevice → t.connectedDevices = s.connectedDevices →
      t.objects = s.objects → Orchestrator.handling? t.orchestrator = none → NotedInv t := by
    intro t hr hc hob hn
    refine hi.mono hr (fun h hx => ?_) (fun d pc hx => ?_) (fun d hx => Or.inl (hc ▸ hx))
      fun d o hx ht => Or.inl ⟨o, hob ▸ hx, ht⟩
    · rw [hn] at hx
      cases hx
    · rw [ho] at hx
      cases hx
  cases e with
  | connected r j =>
    cases h
    exact hidle rfl rfl rfl (by rw [ho]; rfl)
  | session r ev =>
    cases ev with
    | peerHandshake id name caps token =>
      cases h
      simp only [apart, ho, hq] at ha
      -- the address was noted for nobody, or for the device that reports now
      have hnoted : ∀ d, s.Noted d → Noted (Daemon.handshake { s with
          queue := rest, remoteToDevice := s.remoteToDevice.insert r id } ⟨i, r, id, name, token⟩ .isPaired) d := by
        rintro d ⟨r', hr'⟩
        by_cases hrr : r' = r
        · rw [hrr] at hr'
          rw [hr'] at ha
          have hd : d = id := by simpa using ha
          exact ⟨r, HashMap.lookup_insert_some.mpr (Or.inl ⟨rfl, hd.symm⟩)⟩
        · exact ⟨r', HashMap.lookup_insert_some.mpr (Or.inr ⟨hrr, hr'⟩)⟩
      refine ⟨fun h hx => ?_, fun d hx => Or.inl (hnoted d (hconn d hx)),
        fun d o hx hc => Or.inl (hnoted d (hflag d o hx hc))⟩
      cases hx
      exact HashMap.lookup_insert_some.mpr (Or.inl ⟨rfl, rfl⟩)
    | ponged rtt =>
      cases h
      exact hidle rfl rfl rfl (by rw [ho]; rfl)
    | clipboardReceived clip =>
      simp only [dispatch] at h
      split at h
      · cases h
        exact hidle rfl rfl rfl rfl
      · cases h
        exact hidle rfl rfl rfl (by rw [ho]; rfl)
    | closed reason =>
      cases h
      have hgone : ∀ {t : Daemon}, t.remoteToDevice = s.remoteToDevice.erase r → ∀ d, s.Noted d →
          t.Noted d ∨ s.remoteToDevice.lookup r = some d := by
        rintro t ht d ⟨r', hr'⟩
        by_cases hrr : r' = r
        · exact Or.inr (hrr ▸ hr')
        · refine Or.inl ⟨r', ?_⟩
          rw [ht]
          exact HashMap.lookup_erase_some.mpr ⟨hrr, hr'⟩
      refine ⟨fun h hx => ?_, fun d hx => ?_, fun d o hx hc => ?_⟩
      · simp only at hx
        split at hx <;> cases hx
      · refine Or.imp_right (fun hr => ?_) (hgone rfl d (hconn d hx))
        simp only [hr]
      · refine Or.imp_right (fun hr => ⟨.disconnect, ?_⟩) (hgone rfl d (hflag d o hx hc))
        simp only [hr]

theorem NotedInv.step (hi : NotedInv s) (hc : apart s a = true) (h : step cfg s a = some (s', os)) :
    NotedInv s' := by
  cases ha : a.task with
  | net =>
    obtain ⟨⟨_, _, _, rfl⟩, -⟩ := net_frame h ha
    exact hi.mono rfl (fun _ hx => hx) (fun _ _ hx => hx) (fun _ hx => Or.inl hx) fun d o hx hc => Or.inl ⟨o, hx, hc⟩
  | clipboard =>
    obtain ⟨⟨_, _, _, _, _, _, rfl⟩, -, -⟩ := clipboard_frame h ha
    exact hi.mono rfl (fun _ hx => hx) (fun _ _ hx => hx) (fun _ hx => Or.inl hx) fun d o hx hc => Or.inl ⟨o, hx, hc⟩
  | bus =>
    obtain ⟨⟨_, _, _, _, _, objects, _, _, _, _, _, rfl, hor, hobj⟩, -⟩ := bus_frame h ha
    refine hi.mono rfl (fun h hx => ?_) (fun d pc hx => ?_) (fun _ hx => Or.inl hx)
      fun d o hx hc => Or.inl ⟨o, ?_, hc⟩
    · rcases hor with rfl | ⟨channel, accept, rfl⟩
      · exact hx
      · exact (answer_handling channel accept _).symm.trans hx
    · rcases hor with rfl | ⟨channel, accept, rfl⟩
      · exact hx
      · rw [hx]
        rfl
    · rcases hobj with rfl | ⟨id, rfl⟩ | ⟨id, o', -, -, hoff, rfl⟩
      · exact hx
      · exact (HashMap.lookup_erase_some.mp hx).2
      · rcases HashMap.lookup_insert_some.mp hx with ⟨-, rfl⟩ | ⟨-, hx⟩
        · rw [hoff] at hc
          cases hc
        · exact hx
  | orchestrator =>
    cases a with
    | orchestrate ok target =>
      cases orchestrate_turn h with
      | taken i e rest ho hq hd => exact hi.taken ho hq hc hd
      | handshake hh pc ho hs => exact hi.handshake ho hs
      | received r pc ho hr =>
        obtain ⟨⟨_, _, _, _, _, rfl, hor⟩, -, -⟩ := receivedStep_frame hr
        refine hi.mono rfl (fun h hx => ?_) (fun d pc hx => ?_) (fun _ hx => Or.inl hx)
          fun d o hx hc => Or.inl ⟨o, hx, hc⟩
        · rcases hor with rfl | ⟨pc', rfl⟩ <;> cases hx
        · rw [ho] at hx
          cases hx
      | closed id pc ho hcl =>
        subst hcl
        exact hi.closed ho
    | _ => cases ha

theorem run_notedInv (h : Run (system cfg file clipboard) (fun _ s a => apart s a = true) tr s) : NotedInv s := by
  refine h.invariant (I := fun _ s => NotedInv s) (fun s h0 => ?_) (fun _ _ _ _ _ _ hi hc hs => hi.step hc hs)
  rw [h0]
  refine ⟨fun h hx => (by cases hx), fun d hx => absurd hx Finmap.notMem_empty, fun d o hx _ => ?_⟩
  simp [initial] at hx

/-- What the daemon keeps about sessions belongs to sessions whose `Closed` it has not
taken, as long as no two devices report from one address at a time; so nothing
is kept, and no device shown as connected, once all of them are closed. -/
theorem run_no_residue (h : Run (system cfg file clipboard) (fun _ s a => apart s a = true) tr s) :
    (∀ remote j, s.remoteHandles.lookup remote = some j → s.remoteOf j = some remote ∧ .closed j ∉ tr) ∧
    (∀ remote d, s.remoteToDevice.lookup remote = some d →
      ∃ i, s.remoteOf i = some remote ∧ .recorded i d ∈ tr ∧ .closed i ∉ tr) ∧
    (s.orchestrator = .idle → ∀ d, d ∈ s.connectedDevices ∨
        (∃ o, s.objects.lookup d = some o ∧ o.connected = true) → ∃ i, .recorded i d ∈ tr ∧ .closed i ∉ tr) ∧
    (s.orchestrator = .idle → (∀ i < s.connections.length, .closed i ∈ tr) →
      s.remoteHandles = ∅ ∧ s.remoteToDevice = ∅ ∧ s.connectedDevices = ∅ ∧
        ∀ d o, s.objects.lookup d = some o → o.connected = false) := by
  obtain ⟨hhandle, hdevice⟩ := run_live h
  have hi := run_notedInv h
  have hlive : s.orchestrator = .idle → ∀ d, d ∈ s.connectedDevices ∨
      (∃ o, s.objects.lookup d = some o ∧ o.connected = true) →
        ∃ i remote, s.remoteOf i = some remote ∧ .recorded i d ∈ tr ∧ .closed i ∉ tr := by
    intro ho d hx
    have hnoted : s.Noted d := by
      rcases hx with hx | ⟨o, hx, hc⟩
      · exact (hi.connected d hx).resolve_right (by simp [ho])
      · exact (hi.flag d o hx hc).resolve_right (by simp [ho])
    obtain ⟨remote, hr⟩ := hnoted
    obtain ⟨i, hi, hrest⟩ := hdevice remote d hr
    exact ⟨i, remote, hi, hrest⟩
  refine ⟨hhandle, hdevice, fun ho d hx => ?_, fun ho hall => ?_⟩
  · obtain ⟨i, -, -, hrest⟩ := hlive ho d hx
    exact ⟨i, hrest⟩
  · have hclosed : ∀ {i remote}, s.remoteOf i = some remote → .closed i ∈ tr := by
      intro i remote hr
      obtain ⟨x, hx, -⟩ := Option.map_eq_some_iff.mp hr
      refine hall i ?_
      have := get_lt hx
      unfold peers at this
      rwa [List.length_map] at this
    refine ⟨?_, ?_, ?_, fun d o hx => ?_⟩
    · refine Finmap.ext_lookup fun remote => ?_
      rw [Finmap.lookup_empty, Option.eq_none_iff_forall_ne_some]
      intro j hx
      obtain ⟨hr, hcl⟩ := hhandle remote j hx
      exact hcl (hclosed hr)
    · refine Finmap.ext_lookup fun remote => ?_
      rw [Finmap.lookup_empty, Option.eq_none_iff_forall_ne_some]
      intro d hx
      obtain ⟨i, hr, -, hcl⟩ := hdevice remote d hx
      exact hcl (hclosed hr)
    · refine Finmap.ext_lookup fun d => ?_
      rw [Finmap.lookup_empty, Option.eq_none_iff_forall_ne_some]
      intro j hx
      obtain ⟨i, remote, hr, -, hcl⟩ := hlive ho d (Or.inl (HashMap.mem_iff.mpr ⟨j, hx⟩))
      exact hcl (hclosed hr)
    · by_contra hc
      rw [Bool.not_eq_false] at hc
      obtain ⟨i, remote, hr, -, hcl⟩ := hlive ho d (Or.inr ⟨o, hx, hc⟩)
      exact hcl (hclosed hr)

end

/-- The phone is paired from one address and comes back from another before its first session is closed. -/
def Sample.moved : List Act :=
  Sample.pair 0 (Sample.addr 2) Sample.phoneKey ++ Sample.connect 1 (Sample.addr 3) Sample.phoneKey ++
    Sample.greet 1 Sample.phone none ++ Sample.turns 5 ++ Sample.hangUp 0 ++ Sample.turns 3 ++ Sample.hangUp 1 ++
    Sample.turns 3

open Sample in
theorem moved_enabled :
    (exec (system cfg none empty) (fun _ s a => apart s a) [] (initial none empty) moved).isSome = true := by
  decide +kernel

open Sample in
theorem run_no_residue_moved :
    let r := (exec (system cfg none empty) (fun _ s a => apart s a) [] (initial none empty) moved).get moved_enabled
    phone ∈ r.2.trust.paired ∧ r.2.connectedDevices = ∅ ∧ r.2.remoteHandles = ∅ := by
  obtain ⟨-, -, -, h⟩ := run_no_residue (run_of_exec (fun _ _ _ h => h) rfl moved_enabled)
  have hidle : ((exec (system cfg none empty) (fun _ s a => apart s a) [] (initial none empty) moved).get
      moved_enabled).2.orchestrator = .idle := rfl
  obtain ⟨hh, -, hc, -⟩ := h hidle (by decide +kernel)
  exact ⟨by decide +kernel, hc, hh⟩

end Daemon

end PenguinSync
