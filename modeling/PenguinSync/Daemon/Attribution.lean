import PenguinSync.Daemon.Calls

/-!
# Whose clip it is

A clip reaches the orchestrator with its address alone, and the id noted under
the address tells the sender. Sessions may share an address, so what decides is
the last handshake or `Closed` taken from any of them.
-/

namespace PenguinSync

open Lts

namespace Daemon

def remoteOf (s : Daemon) (i : Nat) : Option SocketAddr := s.peers[i]?.map Prod.fst

/-- What taking an event from `remote` says of the device there: that it is `d`, or that it is gone. -/
def notes (s : Daemon) (remote : SocketAddr) : Obs → Option (Option DeviceId)
  | .recorded i d => if s.remoteOf i = some remote then some (some d) else none
  | .closed i => if s.remoteOf i = some remote then some none else none
  | _ => none

def Obs.session? : Obs → Option Nat
  | .recorded i _ | .closed i => some i
  | _ => none

structure NotesInv (tr : List Obs) (s : Daemon) : Prop where
  queued : ∀ i remote e, (i, .session remote e) ∈ s.queue → s.remoteOf i = some remote
  known : ∀ o ∈ tr, ∀ i, Obs.session? o = some i → (s.remoteOf i).isSome = true
  noted : ∀ remote, s.remoteToDevice.lookup remote = (lastOf (s.notes remote) tr).join

section
variable {cfg : Config} {s s' : Daemon} {tr os : List Obs} {a : Act} {i : Nat} {d : DeviceId} {remote : SocketAddr}

theorem remoteOf_step (h : step cfg s a = some (s', os)) (hi : s.remoteOf i = some remote) :
    s'.remoteOf i = some remote := by
  obtain ⟨more, hp⟩ := peers_step h
  unfold remoteOf at hi ⊢
  obtain ⟨x, hx, hr⟩ := Option.map_eq_some_iff.mp hi
  rw [hp, get_append hx, Option.map_some, hr]

theorem notes_step {o : Obs} (h : step cfg s a = some (s', os))
    (hk : ∀ i, Obs.session? o = some i → (s.remoteOf i).isSome = true) : s'.notes remote o = s.notes remote o := by
  have hr : ∀ i, Obs.session? o = some i → s'.remoteOf i = s.remoteOf i := fun i hi => by
    obtain ⟨r, hr⟩ := Option.isSome_iff_exists.mp (hk i hi)
    rw [hr]
    exact remoteOf_step h hr
  unfold notes
  cases o with
  | recorded i d => simp only [hr i rfl]
  | closed i => simp only [hr i rfl]
  | _ => rfl

theorem queue_step {e : SessionEvent} (h : step cfg s a = some (s', os)) (hx : (i, .session remote e) ∈ s'.queue) :
    (i, .session remote e) ∈ s.queue ∨ s.remoteOf i = some remote := by
  cases ha : a.task with
  | net =>
    cases a with
    | advance dt =>
      cases h
      exact Or.inl hx
    | accept r spki =>
      simp only [step, accept, Option.ite_none_right_eq_some, Option.some.injEq, Prod.mk.injEq] at h
      obtain ⟨-, rfl, -⟩ := h
      exact Or.inl hx
    | connection j ca =>
      simp only [step, connectionStep] at h
      split at h
      · cases h
      · split at h
        · cases h
        · cases h
          rcases List.mem_append.mp hx with hx | hx
          · exact Or.inl hx
          · unfold connected at hx
            split at hx <;> simp at hx
    | drain j =>
      simp only [step, drain] at h
      split at h
      · cases h
      · rename_i c hc
        split at h
        · cases h
        · cases h
          rcases List.mem_append.mp hx with hx | hx
          · exact Or.inl hx
          · rw [List.mem_singleton] at hx
            cases hx
            right
            unfold remoteOf peers
            rw [List.getElem?_map, hc]
            rfl
    | _ => cases ha
  | clipboard =>
    obtain ⟨⟨_, _, _, _, _, _, rfl⟩, -, -⟩ := clipboard_frame h ha
    exact Or.inl hx
  | bus =>
    obtain ⟨⟨_, _, _, _, _, _, _, _, _, _, _, rfl, -⟩, -⟩ := bus_frame h ha
    exact Or.inl hx
  | orchestrator =>
    cases a with
    | orchestrate ok target =>
      cases orchestrate_turn h with
      | taken j e rest _ hq hd =>
        obtain ⟨⟨_, _, _, rfl⟩, -⟩ := dispatch_frame hd
        rw [hq]
        exact Or.inl (List.mem_cons_of_mem _ hx)
      | handshake hh pc _ hs =>
        obtain ⟨⟨_, _, _, _, _, _, _, _, _, rfl, -⟩, -⟩ := handshakeStep_frame hs
        exact Or.inl hx
      | received r pc _ hr =>
        have hq : s'.queue = s.queue := by
          obtain ⟨⟨_, _, _, _, _, rfl, -⟩, -, -⟩ := receivedStep_frame hr
          rfl
        rw [hq] at hx
        exact Or.inl hx
      | closed id pc _ hc =>
        subst hc
        cases pc <;> exact Or.inl hx
    | _ => cases ha

theorem dispatch_noted {e : ListenerEvent} {rest : List (Nat × ListenerEvent)}
    (hd : ({ s with queue := rest } : Daemon).dispatch i e = (s', os))
    (hr : ∀ r ev, e = .session r ev → s.remoteOf i = some r) (remote : SocketAddr) :
    s'.remoteToDevice.lookup remote = ((lastOf (s.notes remote) os).or (some (s.remoteToDevice.lookup remote))).join := by
  cases e with
  | connected r handle =>
    cases hd
    rfl
  | session r ev =>
    have hri := hr r ev rfl
    cases ev with
    | peerHandshake deviceId name caps token =>
      cases hd
      by_cases he : remote = r
      · subst he
        have hl : lastOf (s.notes remote) [.recorded i deviceId] = some (some deviceId) := lastOf_singleton (if_pos hri)
        rw [hl]
        exact Finmap.lookup_insert _
      · have hn : ∀ o ∈ [Obs.recorded i deviceId], s.notes remote o = none := fun o ho => by
          rw [List.mem_singleton.mp ho]
          exact if_neg fun hx => he (Option.some.inj (hx.symm.trans hri))
        rw [lastOf_none hn]
        exact Finmap.lookup_insert_of_ne _ he
    | ponged rtt =>
      cases hd
      rfl
    | clipboardReceived clip =>
      simp only [dispatch] at hd
      split at hd <;> (cases hd; rfl)
    | closed reason =>
      cases hd
      by_cases he : remote = r
      · subst he
        have hl : lastOf (s.notes remote) [.closed i] = some none := lastOf_singleton (if_pos hri)
        rw [hl]
        exact Finmap.lookup_erase ..
      · have hn : ∀ o ∈ [Obs.closed i], s.notes remote o = none := fun o ho => by
          rw [List.mem_singleton.mp ho]
          exact if_neg fun hx => he (Option.some.inj (hx.symm.trans hri))
        rw [lastOf_none hn]
        exact Finmap.lookup_erase_ne he

theorem lookup_step (hi : NotesInv tr s) (h : step cfg s a = some (s', os)) (remote : SocketAddr) :
    s'.remoteToDevice.lookup remote = ((lastOf (s.notes remote) os).or (some (s.remoteToDevice.lookup remote))).join := by
  rcases maps_step h with ⟨hm, -, hos⟩ | ⟨ok, target, j, e, rest, rfl, hor, hq, hd⟩
  · rw [hm, lastOf_none fun o ho => ?_]
    · rfl
    · have := hos o ho
      cases o <;> first | rfl | cases this
  · refine dispatch_noted hd (fun r ev he => hi.queued j r ev ?_) remote
    rw [hq, he]
    exact List.mem_cons_self ..

theorem taking_of_session {o : Obs} (hs : Obs.session? o = some i) : Obs.taking o = true := by
  unfold Obs.session? at hs
  split at hs <;> first | rfl | cases hs

theorem session_step {o : Obs} (hi : NotesInv tr s) (h : step cfg s a = some (s', os)) (ho : o ∈ os)
    (hs : Obs.session? o = some i) : (s.remoteOf i).isSome = true := by
  rcases maps_step h with ⟨-, -, hos⟩ | ⟨ok, target, j, e, rest, rfl, hor, hq, hd⟩
  · cases (hos o ho).symm.trans (taking_of_session hs)
  · have hj : ∀ r ev, e = .session r ev → (s.remoteOf j).isSome = true := fun r ev he => by
      rw [hi.queued j r ev (by rw [hq, he]; exact List.mem_cons_self ..)]
      rfl
    have hij : i = j := by
      cases e with
      | connected r handle =>
        cases hd
        simp at ho
      | session r ev =>
        cases ev with
        | clipboardReceived clip =>
          simp only [dispatch] at hd
          split at hd <;> (cases hd; simp at ho)
        | ponged rtt =>
          cases hd
          simp at ho
        | _ =>
          cases hd
          rw [List.mem_singleton] at ho
          rw [ho] at hs
          cases hs
          rfl
    subst hij
    cases e with
    | connected r handle =>
      cases hd
      simp at ho
    | session r ev => exact hj r ev rfl

theorem NotesInv.step (hi : NotesInv tr s) (h : step cfg s a = some (s', os)) : NotesInv (tr ++ os) s' where
  queued j r e hx := by
    rcases queue_step h hx with hx | hr
    · exact remoteOf_step h (hi.queued j r e hx)
    · exact remoteOf_step h hr
  known o ho j hj := by
    have hk : (s.remoteOf j).isSome = true := by
      rcases List.mem_append.mp ho with ho | ho
      · exact hi.known o ho j hj
      · exact session_step hi h ho hj
    obtain ⟨r, hr⟩ := Option.isSome_iff_exists.mp hk
    rw [remoteOf_step h hr]
    rfl
  noted remote := by
    have hold : lastOf (s'.notes remote) tr = lastOf (s.notes remote) tr :=
      lastOf_congr fun o ho => notes_step h (hi.known o ho)
    have hnew : lastOf (s'.notes remote) os = lastOf (s.notes remote) os :=
      lastOf_congr fun o ho => notes_step h fun j hj => session_step hi h ho hj
    rw [lookup_step hi h, lastOf_append, hold, hnew, hi.noted remote]
    cases lastOf (s.notes remote) os with
    | none => cases lastOf (s.notes remote) tr <;> rfl
    | some x => rfl

variable {file : Option PersistedState} {clipboard : Content} {C : List Obs → Daemon → Act → Prop}

theorem run_notes (h : Run (system cfg file clipboard) C tr s) : NotesInv tr s := by
  refine h.invariant (fun s h0 => ?_) (fun _ _ _ _ _ _ hi _ hs => hi.step hs)
  rw [h0]
  exact ⟨by simp [initial], by simp, fun _ => rfl⟩

def AttributedTo (cfg : Config) (s : Daemon) (i : Nat) (c : Clip) (d : DeviceId) : Prop :=
  ∀ ok target, ∃ s', step cfg s (.orchestrate ok target) = some (s', []) ∧
    s'.orchestrator = .received ⟨i, d, c⟩ .isPaired

theorem attributed_iff {c : Clip} {rest : List (Nat × ListenerEvent)} (ho : s.orchestrator = .idle)
    (hq : s.queue = (i, .session remote (.clipboardReceived c)) :: rest) :
    AttributedTo cfg s i c d ↔ s.remoteToDevice.lookup remote = some d := by
  unfold AttributedTo
  simp only [step, orchestrate, ho, hq, dispatch]
  cases hl : s.remoteToDevice.lookup remote with
  | none =>
    refine iff_of_false (fun h => ?_) (by simp)
    obtain ⟨s', hs, hx⟩ := h true d
    cases hs
    cases hx
  | some d' =>
    constructor
    · intro h
      obtain ⟨s', hs, hx⟩ := h true d
      cases hs
      cases hx
      rfl
    · intro h _ _
      cases h
      exact ⟨_, rfl, rfl⟩

/-- A clip of a session that reported `d` is attributed to `d` if and only if
the last handshake or `Closed` taken from the session's address, whatever
session it was of, was a handshake of `d`. -/
theorem run_clip_attributed {c : Clip} {rest : List (Nat × ListenerEvent)}
    (h : Run (system cfg file clipboard) C tr s) (ho : s.orchestrator = .idle)
    (hq : s.queue = (i, .session remote (.clipboardReceived c)) :: rest) :
    ∀ d, .recorded i d ∈ tr → (AttributedTo cfg s i c d ↔ lastOf (s.notes remote) tr = some (some d)) := by
  intro d _
  rw [attributed_iff ho hq, (run_notes h).noted remote]
  cases lastOf (s.notes remote) tr with
  | none => simp
  | some x => simp

end

/-- The phone dials again from the same address; then the `Closed` of its first
session is taken, and it sends a clip. -/
def Sample.redialled : List Act :=
  Sample.pair 0 (Sample.addr 2) Sample.phoneKey ++ Sample.connect 1 (Sample.addr 2) Sample.phoneKey ++
    Sample.greet 1 Sample.phone none ++ Sample.turns 5 ++ Sample.hangUp 0 ++ Sample.turns 3 ++
    Sample.share 1 Sample.clipA

open Sample in
/-- The clip of the second session is dropped as one that came before a handshake. -/
theorem redialled_dropped : ∃ tr s, Run (system cfg none empty) always tr s ∧ s.orchestrator = .idle ∧
    s.queue = [(1, .session (addr 2) (.clipboardReceived clipA))] ∧ .recorded 1 phone ∈ tr ∧ .closed 1 ∉ tr ∧
    ¬ ∃ d, AttributedTo cfg s 1 clipA d := by
  have hrun : (exec (system cfg none empty) anyway [] (initial none empty) redialled).any (fun r =>
      r.2.orchestrator = .idle ∧ r.2.queue = [(1, .session (addr 2) (.clipboardReceived clipA))] ∧
        .recorded 1 phone ∈ r.1 ∧ .closed 1 ∉ r.1 ∧ r.2.remoteToDevice.lookup (addr 2) = none) = true := by
    decide +kernel
  obtain ⟨⟨tr, s⟩, he, hfacts⟩ := (Option.any_eq_true _ _).mp hrun
  obtain ⟨ho, hq, hrec, hclosed, hnone⟩ := of_decide_eq_true hfacts
  refine ⟨tr, s, .exec (fun _ _ _ _ => trivial) (.init rfl) he, ho, hq, hrec, hclosed, ?_⟩
  rintro ⟨d, hd⟩
  cases hnone.symm.trans ((attributed_iff ho hq).mp hd)

open Sample in
theorem greeted_enabled : (exec (system cfg none empty) anyway [] (initial none empty)
    (pair 0 (addr 2) phoneKey ++ share 0 clipA)).isSome = true := by
  decide +kernel

open Sample in
theorem run_clip_attributed_shared : AttributedTo cfg ((exec (system cfg none empty) anyway [] (initial none empty)
    (pair 0 (addr 2) phoneKey ++ share 0 clipA)).get greeted_enabled).2 0 clipA phone := by
  have hq : ((exec (system cfg none empty) anyway [] (initial none empty) (pair 0 (addr 2) phoneKey ++
      share 0 clipA)).get greeted_enabled).2.queue = [(0, .session (addr 2) (.clipboardReceived clipA))] := rfl
  exact (run_clip_attributed (run_of_anyway rfl greeted_enabled) rfl hq phone (by decide +kernel)).mpr
    (by decide +kernel)

end Daemon

end PenguinSync
