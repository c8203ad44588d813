import PenguinSync.Daemon.Calls

/-!
# The event stream of a connection

What a connection's driving task sent and the orchestrator has not taken yet:
first what is in the queue, then what the drain still holds. `Closed` is the
last event of a stream, and nothing follows once the orchestrator took it.
-/

namespace PenguinSync

open Lts

def ListenerEvent.session? : ListenerEvent → Option SessionEvent
  | .session _ e => some e
  | .connected .. => none

namespace Daemon

def queued (i : Nat) (q : List (Nat × ListenerEvent)) : List SessionEvent :=
  q.filterMap fun x => if x.1 = i then x.2.session? else none

def undrained (i : Nat) (cs : List Connection) : List SessionEvent :=
  match cs[i]? with
  | some c => c.events
  | none => []

def pending (s : Daemon) (i : Nat) : List SessionEvent := queued i s.queue ++ undrained i s.connections

def Exited (i : Nat) (cs : List Connection) : Prop := ∃ c, cs[i]? = some c ∧ c.session.stage = .done

structure StreamInv (tr : List Obs) (s : Daemon) : Prop where
  last : ∀ i, ClosedLast (s.pending i) (Exited i s.connections)
  gone : ∀ i, .closed i ∈ tr → s.pending i = [] ∧ Exited i s.connections

section
variable {cfg : Config} {s s' : Daemon} {tr os : List Obs} {i : Nat} {a : Act}
  {q q' : List (Nat × ListenerEvent)} {cs : List Connection}

theorem queued_append : queued i (q ++ q') = queued i q ++ queued i q' := List.filterMap_append

theorem queued_cons_self {e : ListenerEvent} : queued i ((i, e) :: q) = e.session?.toList ++ queued i q := by
  cases h : e.session? <;> simp [queued, h]

theorem queued_cons_ne {j : Nat} {e : ListenerEvent} (h : j ≠ i) : queued i ((j, e) :: q) = queued i q := by
  simp [queued, h]

theorem undrained_cores (hc : s'.cores = s.cores) (i : Nat) :
    undrained i s'.connections = undrained i s.connections := by
  have h := congrArg (·[i]?) hc
  simp only [cores, List.getElem?_map] at h
  unfold undrained
  cases h1 : s'.connections[i]? with
  | none =>
    cases h2 : s.connections[i]? with
    | none => rfl
    | some c => rw [h1, h2] at h; cases h
  | some c' =>
    cases h2 : s.connections[i]? with
    | none => rw [h1, h2] at h; cases h
    | some c =>
      rw [h1, h2, Option.map_some, Option.map_some, Option.some.injEq] at h
      have he : c'.core.events = c.core.events := congrArg _ h
      exact he

theorem exited_cores (hc : s'.cores = s.cores) (h : Exited i s.connections) : Exited i s'.connections := by
  obtain ⟨c, hci, hd⟩ := h
  have h := congrArg (·[i]?) hc
  simp only [cores, List.getElem?_map, hci, Option.map_some] at h
  obtain ⟨c', hc', he⟩ := Option.map_eq_some_iff.mp h
  refine ⟨c', hc', ?_⟩
  have := congrArg (fun c => c.session.stage) he
  exact this.trans hd

theorem StreamInv.same (hi : StreamInv tr s) (hp : ∀ i, s'.pending i = s.pending i)
    (he : ∀ i, Exited i s.connections → Exited i s'.connections) (hos : ∀ i, .closed i ∉ os) :
    StreamInv (tr ++ os) s' := by
  refine ⟨fun i => ?_, fun i hm => ?_⟩
  · rw [hp i]
    exact (hi.last i).mono (he i)
  · rcases List.mem_append.mp hm with hm | hm
    · obtain ⟨h1, h2⟩ := hi.gone i hm
      exact ⟨(hp i).trans h1, he i h2⟩
    · exact absurd hm (hos i)

theorem StreamInv.frame (hi : StreamInv tr s) (hq : s'.queue = s.queue) (hc : s'.cores = s.cores)
    (hos : ∀ i, .closed i ∉ os) : StreamInv (tr ++ os) s' := by
  refine hi.same (fun i => ?_) (fun i => exited_cores hc) hos
  unfold pending
  rw [hq, undrained_cores hc]

theorem exited_set {c : Connection} {j : Nat} (h : Exited j cs) (hi : ∀ c', cs[i]? = some c' → i = j →
    c'.session.stage = .done → c.session.stage = .done) : Exited j (cs.set i c) := by
  obtain ⟨c', hj, hd⟩ := h
  by_cases hij : i = j
  · subst hij
    refine ⟨c, ?_, hi c' hj rfl hd⟩
    rw [List.getElem?_set_self (get_lt hj)]
  · exact ⟨c', by rw [List.getElem?_set_ne hij, hj], hd⟩

theorem undrained_set_self {c c' : Connection} (h : cs[i]? = some c') : undrained i (cs.set i c) = c.events := by
  unfold undrained
  rw [List.getElem?_set_self (get_lt h)]

theorem undrained_set_ne {c : Connection} {j : Nat} (h : i ≠ j) : undrained j (cs.set i c) = undrained j cs := by
  unfold undrained
  rw [List.getElem?_set_ne h]

theorem undrained_of {c : Connection} (h : cs[i]? = some c) : undrained i cs = c.events := by
  unfold undrained
  rw [h]

theorem pending_accept {remote : SocketAddr} {spki : List UInt8} (h : s.accept cfg remote spki = some (s', os)) (i : Nat) :
    s'.pending i = s.pending i := by
  simp only [Daemon.accept, Option.ite_none_right_eq_some, Option.some.injEq, Prod.mk.injEq] at h
  obtain ⟨-, rfl, -⟩ := h
  unfold pending undrained
  rcases Nat.lt_or_ge i s.connections.length with hlt | hge
  · rw [List.getElem?_append_left hlt]
  · rw [List.getElem?_append_right hge, List.getElem?_eq_none hge]
    cases i - s.connections.length <;> rfl

theorem StreamInv.accept {remote : SocketAddr} {spki : List UInt8} (hi : StreamInv tr s)
    (h : s.accept cfg remote spki = some (s', os)) : StreamInv (tr ++ os) s' := by
  have hp := pending_accept h
  simp only [Daemon.accept, Option.ite_none_right_eq_some, Option.some.injEq, Prod.mk.injEq] at h
  obtain ⟨-, rfl, rfl⟩ := h
  refine hi.same hp (fun i he => ?_) (by simp)
  obtain ⟨c, hc, hd⟩ := he
  exact ⟨c, get_append hc _, hd⟩

theorem StreamInv.connection {ca : ConnectionAct} (hi : StreamInv tr s)
    (h : s.connectionStep i ca = some (s', os)) : StreamInv (tr ++ os) s' := by
  unfold connectionStep at h
  split at h
  · cases h
  rename_i c hc
  split at h
  · cases h
  rename_i ses outs hs
  cases h
  obtain ⟨hstage, hlast⟩ := Session.step_closedLast hs
  have hopen : ¬ Exited i s.connections := by
    rintro ⟨c', hc', hd⟩
    cases hc.symm.trans hc'
    exact hstage hd
  have hnew : queued i (connected i c ca) = [] := by
    unfold connected
    split <;> simp [queued, ListenerEvent.session?]
  have hset : ∀ j, Exited j s.connections → Exited j (s.connections.set i
      { c with session := ses, events := c.events ++ outs.filterMap Output.event? }) := by
    refine fun j he => exited_set he fun c' hc' _ hd => ?_
    cases hc.symm.trans hc'
    exact absurd hd hstage
  have hne : ∀ j, i ≠ j → Daemon.pending { s with
      connections := s.connections.set i { c with session := ses, events := c.events ++ outs.filterMap Output.event? }
      queue := s.queue ++ connected i c ca } j = s.pending j := by
    intro j hij
    have hq : queued j (connected i c ca) = [] := by
      unfold connected
      split <;> simp [queued, hij]
    unfold Daemon.pending
    rw [queued_append, hq, List.append_nil, undrained_set_ne hij]
  refine ⟨fun j => ?_, fun j hm => ?_⟩
  · by_cases hij : i = j
    · subst hij
      have hp := (hi.last i).not_mem hopen
      unfold Daemon.pending at hp ⊢
      rw [undrained_of hc] at hp
      rw [queued_append, hnew, List.append_nil, undrained_set_self hc, ← List.append_assoc]
      exact .append hp (hlast.mono fun hd => ⟨_, List.getElem?_set_self (get_lt hc), hd⟩)
    · rw [hne j hij]
      exact (hi.last j).mono (hset j)
  · have hm : .closed j ∈ tr := by simpa using hm
    obtain ⟨h1, h2⟩ := hi.gone j hm
    by_cases hij : i = j
    · exact absurd (hij ▸ h2) hopen
    · exact ⟨(hne j hij).trans h1, hset j h2⟩

theorem pending_drain (h : s.drain i = some (s', os)) (j : Nat) : s'.pending j = s.pending j := by
  unfold Daemon.drain at h
  split at h
  · cases h
  rename_i c hc
  split at h
  · cases h
  rename_i e rest he
  cases h
  unfold Daemon.pending
  by_cases hij : i = j
  · subst hij
    rw [queued_append, undrained_set_self hc, undrained_of hc, he]
    simp [queued, ListenerEvent.session?]
  · rw [queued_append, undrained_set_ne hij]
    simp [queued, hij]

theorem StreamInv.drain (hi : StreamInv tr s) (h : s.drain i = some (s', os)) : StreamInv (tr ++ os) s' := by
  have hp := pending_drain h
  unfold Daemon.drain at h
  split at h
  · cases h
  rename_i c hc
  split at h
  · cases h
  rename_i e rest he
  cases h
  refine hi.same hp (fun j hx => exited_set hx fun c' hc' _ hd => ?_) (by simp)
  cases hc.symm.trans hc'
  exact hd

theorem dispatch_closed {s : Daemon} {i j : Nat} {e : ListenerEvent} (h : .closed j ∈ (s.dispatch i e).2) :
    i = j ∧ ∃ remote r, e = .session remote (.closed r) := by
  cases e with
  | connected remote handle => simp [dispatch] at h
  | session remote ev =>
    cases ev with
    | peerHandshake deviceId name caps token => simp [dispatch] at h
    | ponged rtt => simp [dispatch] at h
    | clipboardReceived clip =>
      simp only [dispatch] at h
      split at h <;> simp at h
    | closed r =>
      simp only [dispatch, List.mem_singleton, Obs.closed.injEq] at h
      exact ⟨h.symm, remote, r, rfl⟩

theorem StreamInv.taken {e : ListenerEvent} {rest : List (Nat × ListenerEvent)} (hi : StreamInv tr s)
    (hq : s.queue = (i, e) :: rest) (h : ({ s with queue := rest } : Daemon).dispatch i e = (s', os)) :
    StreamInv (tr ++ os) s' := by
  obtain ⟨hq', hc'⟩ : s'.queue = rest ∧ s'.connections = s.connections := by
    obtain ⟨⟨_, _, _, hs'⟩, -⟩ := dispatch_frame h
    rw [hs']
    exact ⟨rfl, rfl⟩
  have hp : ∀ j, s'.pending j = queued j rest ++ undrained j s.connections := by
    intro j
    unfold Daemon.pending
    rw [hq', hc']
  have hself : s.pending i = e.session?.toList ++ s'.pending i := by
    rw [hp, Daemon.pending, hq, queued_cons_self, List.append_assoc]
  have hne : ∀ j, i ≠ j → s'.pending j = s.pending j := by
    intro j hij
    rw [hp, Daemon.pending, hq, queued_cons_ne hij]
  have hlast : ∀ j, ClosedLast (s'.pending j) (Exited j s.connections) := by
    intro j
    by_cases hij : i = j
    · subst hij
      have := hi.last i
      rw [hself] at this
      cases he : e.session? with
      | none => simpa [he] using this
      | some ev =>
        rw [he] at this
        exact this.tail
    · rw [hne j hij]
      exact hi.last j
  refine ⟨fun j => hc' ▸ hlast j, fun j hm => ?_⟩
  rw [hc']
  rcases List.mem_append.mp hm with hm | hm
  · obtain ⟨h1, h2⟩ := hi.gone j hm
    refine ⟨?_, h2⟩
    by_cases hij : i = j
    · subst hij
      rw [hself] at h1
      exact (List.append_eq_nil_iff.mp h1).2
    · rw [hne j hij, h1]
  · rw [show os = (({ s with queue := rest } : Daemon).dispatch i e).2 by rw [h]] at hm
    obtain ⟨rfl, remote, r, rfl⟩ := dispatch_closed hm
    have := hi.last i
    rw [hself] at this
    exact this.head

theorem StreamInv.turn {ok : Bool} {target : DeviceId} (hi : StreamInv tr s) (h : Turn s s' ok target os) :
    StreamInv (tr ++ os) s' := by
  cases h with
  | taken i e rest _ hq hd => exact hi.taken hq hd
  | handshake hh pc _ hs =>
    obtain ⟨⟨_, _, _, _, _, _, _, _, _, rfl, -⟩, ho⟩ := handshakeStep_frame hs
    exact hi.frame rfl rfl fun i hm => by cases ho _ hm
  | received r pc _ hr =>
    obtain ⟨⟨_, _, _, _, _, rfl, -⟩, hc, ho⟩ := receivedStep_frame hr
    exact hi.frame rfl hc fun i hm => by cases ho _ hm
  | closed id pc _ hc =>
    subst hc
    cases pc <;> exact hi.frame rfl rfl (by simp)

theorem StreamInv.step (hi : StreamInv tr s) (h : step cfg s a = some (s', os)) : StreamInv (tr ++ os) s' := by
  cases ha : a.task with
  | net =>
    cases a with
    | advance dt =>
      cases h
      exact hi.frame rfl rfl (by simp)
    | accept remote spki => exact hi.accept h
    | connection i ca => exact hi.connection h
    | drain i => exact hi.drain h
    | _ => cases ha
  | clipboard =>
    obtain ⟨⟨_, _, _, _, _, _, rfl⟩, hc, ho⟩ := clipboard_frame h ha
    exact hi.frame rfl hc fun i hm => by cases ho _ hm
  | bus =>
    obtain ⟨⟨_, _, _, _, _, _, _, _, _, _, _, rfl, -⟩, ho⟩ := bus_frame h ha
    exact hi.frame rfl rfl fun i hm => by cases ho _ hm
  | orchestrator =>
    cases a with
    | orchestrate ok target => exact hi.turn (orchestrate_turn h)
    | _ => cases ha

theorem StreamInv.taken_open {e : SessionEvent} {remote : SocketAddr} {rest : List (Nat × ListenerEvent)}
    (hi : StreamInv tr s) (hq : s.queue = (i, .session remote e) :: rest) : .closed i ∉ tr := by
  intro hm
  obtain ⟨hp, -⟩ := hi.gone i hm
  rw [Daemon.pending, hq, queued_cons_self] at hp
  simp [ListenerEvent.session?] at hp

variable {file : Option PersistedState} {clipboard : Content} {C : List Obs → Daemon → Act → Prop}

theorem run_streams (h : Run (system cfg file clipboard) C tr s) : StreamInv tr s := by
  refine h.invariant (fun s h0 => ?_) (fun tr s a s' os _ hi _ hs => hi.step hs)
  rw [h0]
  exact ⟨fun i => closedLast_nil, fun i hm => by simp at hm⟩

end

end Daemon

end PenguinSync
