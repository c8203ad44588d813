import PenguinSync.Net.Drive
import PenguinSync.Protocol.History

/-!
# The event stream of a session

What the owner of a session is told, over a whole run of the driving task. Up
to the peer's handshake it is told nothing but the end, and from then on the
handshake stands at the front of the stream.
-/

namespace PenguinSync

open Lts

namespace SessionEvent

def isPeerHandshake : SessionEvent → Bool
  | .peerHandshake .. => true
  | _ => false

/-- What the peer says or does once the sessions are known to each other. -/
def isFromPeer : SessionEvent → Bool
  | .ponged _ | .clipboardReceived _ => true
  | _ => false

end SessionEvent

def Message.handshake? : Message → Option Handshake
  | .handshake h => some h
  | _ => none

def firstHandshake (ms : List Message) : Option Handshake := (ms.filterMap Message.handshake?).head?

theorem firstHandshake_append (ms ns : List Message) :
    firstHandshake (ms ++ ns) = (firstHandshake ms).or (firstHandshake ns) := by
  unfold firstHandshake
  rw [List.filterMap_append, List.head?_append]

def Handshake.event (h : Handshake) : SessionEvent := .peerHandshake h.deviceId h.name h.capabilities h.pairingToken

/-! ## The events of one turn -/

namespace Session

/-- Events told so far, the first handshake received and the session they leave. -/
inductive Told (s : Session) : List SessionEvent → Option Handshake → Prop
  | waiting : s.machine.phase = .awaitingPeerHandshake → s.stage ≠ .done → Told s [] none
  | ended (r : CloseReason) (hello : Option Handshake) : s.machine.phase = .awaitingPeerHandshake →
      s.stage = .done →
      (∀ h, hello = some h → h.version ≠ protocolVersion ∧ r = .versionMismatch protocolVersion h.version) →
      Told s [.closed r] hello
  | greeted (h : Handshake) (rest : List SessionEvent) : s.machine.phase = .ready →
      h.version = protocolVersion → (∀ e ∈ rest, e.isPeerHandshake = false) → ClosedLast rest (s.stage = .done) →
      (s.stage = .done → ∃ r, .closed r ∈ rest) → Told s (h.event :: rest) (some h)

section
variable {s s' : Session} {ev : Event} {nonce : UInt64} {clock : Time} {write : Bool} {m' : ConnectionMachine}
  {acts : List Action}

/-- Before the handshake a call tells of the handshake or of the end, if of anything. -/
theorem told_waiting (hp : s.machine.phase = .awaitingPeerHandshake)
    (hc : Call s.machine nonce clock ev m' acts) (hm : s'.machine = m')
    (hst : s'.stage = if (runActions write acts).2 then .loop else .done) :
    Told s' ((runActions write acts).1.filterMap Output.event?) (firstHandshake ev.message?.toList) := by
  have hwait : s'.machine.phase = .awaitingPeerHandshake → s'.stage = .loop → Told s' [] none := by
    intro hp' hl
    exact .waiting hp' (by simp [hl])
  cases hc with
  | started =>
    rw [← hm] at hp
    cases write
    · exact .ended _ none hp hst (by simp)
    · exact hwait hp hst
  | rejected h _ hv =>
    rw [← hm] at hp
    exact .ended _ (some h) hp hst (by simp [hv])
  | opened h _ hv => exact .greeted h [] (by rw [hm]) hv (by simp) closedLast_nil (by simp [hst, runActions])
  | premature msg _ hn =>
    have hnone : firstHandshake (Event.received msg).message?.toList = none := by
      cases msg with
      | handshake h => exact absurd rfl (hn h)
      | _ => rfl
    rw [← hm] at hp
    rw [hnone]
    exact hwait hp hst
  | early now _ | dropped c _ =>
    rw [← hm] at hp
    exact hwait hp hst
  | repeated _ hr | answered _ hr | ponged _ _ hr _ | stale _ hr _ | clip _ hr | waiting _ _ _ hr _ _
  | lost _ _ _ hr _ _ | baseline _ hr _ _ | undue _ _ hr _ _ _ | pinged _ _ hr _ _ _ | shared _ hr =>
    rw [hp] at hr
    cases hr

/-- After the handshake no call tells of another. -/
theorem no_second_handshake (hr : s.machine.phase = .ready) (hc : Call s.machine nonce clock ev m' acts) :
    ∀ e ∈ (runActions write acts).1.filterMap Output.event?, e.isPeerHandshake = false := by
  cases hc with
  | rejected _ hp _ | opened _ hp _ =>
    rw [hr] at hp
    cases hp
  | answered _ _ | pinged _ _ _ _ _ _ | shared _ _ | started =>
    cases write <;> simp [runActions, Output.event?, SessionEvent.isPeerHandshake]
  | _ => simp [runActions, Output.event?, SessionEvent.isPeerHandshake]

end

theorem Told.same {s s' : Session} {evs : List SessionEvent} {hello : Option Handshake} (ht : Told s evs hello)
    (hst : s'.stage = s.stage) (hm : s'.machine = s.machine) : Told s' evs hello := by
  cases ht with
  | waiting hp hd => exact .waiting (hm ▸ hp) (hst ▸ hd)
  | ended r hello hp hd hh => exact .ended r hello (hm ▸ hp) (hst.trans hd) hh
  | greeted h rest hr hv hno hlast hc => exact .greeted h rest (hm ▸ hr) hv hno (hst ▸ hlast) (hst ▸ hc)

theorem Told.give {s : Session} {evs : List SessionEvent} {hello : Option Handshake} (ht : Told s evs hello)
    (hs : s.stage ≠ .done) (ev : Event) (nonce : UInt64) (clock : Time) (write : Bool) :
    Told (s.give ev nonce clock write).1 (evs ++ (s.give ev nonce clock write).2.filterMap Output.event?)
      (hello.or (firstHandshake ev.message?.toList)) := by
  have hc : Call s.machine nonce clock ev _ _ := handle_call rfl
  cases ht with
  | waiting hp _ => exact told_waiting hp hc rfl rfl
  | ended _ _ _ hd _ => exact absurd hd hs
  | greeted h rest hr hv hno hlast _ =>
    have hopen := hlast.not_mem hs
    refine .greeted h _ (hc.ready hr) hv ?_ ((give_closedLast ev nonce clock write).append hopen) fun hd => ?_
    · intro e he
      rcases List.mem_append.mp he with he | he
      · exact hno e he
      · exact no_second_handshake hr hc e he
    · obtain ⟨r, hr⟩ := give_closes hd
      exact ⟨r, List.mem_append_right _ hr⟩

theorem Told.close {s : Session} {evs : List SessionEvent} {hello : Option Handshake} (ht : Told s evs hello)
    (hs : s.stage ≠ .done) (r : CloseReason) : Told (s.close r).1 (evs ++ [.closed r]) hello := by
  cases ht with
  | waiting hp _ => exact .ended r none hp rfl (by simp)
  | ended _ _ _ hd _ => exact absurd hd hs
  | greeted h rest hr hv hno hlast _ =>
    refine .greeted h _ hr hv ?_ (ClosedLast.append (hlast.not_mem hs) (closedLast_singleton rfl)) fun _ => ?_
    · intro e he
      rcases List.mem_append.mp he with he | he
      · exact hno e he
      · rw [List.mem_singleton.mp he]
        rfl
    · exact ⟨r, List.mem_append_right _ (List.mem_singleton_self _)⟩

/-! ## The shape of what was told -/

section
variable {s : Session} {evs : List SessionEvent} {hello : Option Handshake}

def Finished (evs : List SessionEvent) : Prop := ∃ pre r, evs = pre ++ [.closed r] ∧ ∀ r', .closed r' ∉ pre

theorem finished_of_closedLast {P : Prop} (h : ClosedLast evs P) (hc : ∃ r, .closed r ∈ evs) : Finished evs := by
  obtain ⟨r, hr⟩ := hc
  obtain ⟨pre, post, he⟩ := List.append_of_mem hr
  have hpost := (h pre r post he).1
  subst hpost
  refine ⟨pre, r, he, fun r' hr' => ?_⟩
  obtain ⟨pre', post', rfl⟩ := List.append_of_mem hr'
  have hnil := (h pre' r' (post' ++ [.closed r]) (by rw [he, List.append_assoc, List.cons_append])).1
  simp at hnil

theorem Told.closed (ht : Told s evs hello) :
    (s.stage ≠ .done → ∀ r, .closed r ∉ evs) ∧ (s.stage = .done → Finished evs) := by
  cases ht with
  | waiting _ hd => exact ⟨fun _ => by simp, fun h => absurd h hd⟩
  | ended r _ _ hd _ => exact ⟨fun h => absurd hd h, fun _ => ⟨[], r, rfl, by simp⟩⟩
  | greeted h rest _ _ _ hlast hc =>
    have hall : ClosedLast (h.event :: rest) (s.stage = .done) := hlast.cons (by simp [Handshake.event])
    exact ⟨hall.not_mem, fun hd => finished_of_closedLast hall ((hc hd).imp fun _ => List.mem_cons_of_mem _)⟩

theorem Told.handshake_once (ht : Told s evs hello) : evs.countP SessionEvent.isPeerHandshake ≤ 1 := by
  cases ht with
  | waiting _ _ => exact Nat.zero_le _
  | ended r _ _ _ _ => exact Nat.zero_le _
  | greeted h rest _ _ hno _ _ =>
    have hrest : rest.countP SessionEvent.isPeerHandshake = 0 := by
      rw [List.countP_eq_zero]
      intro e he
      simp [hno e he]
    rw [List.countP_cons_of_pos rfl, hrest]

theorem Told.handshake_first (ht : Told s evs hello) {pre post : List SessionEvent} {e : SessionEvent}
    (he : evs = pre ++ e :: post) (hf : e.isFromPeer = true) : ∃ x ∈ pre, x.isPeerHandshake = true := by
  have hmem : e ∈ evs := by simp [he]
  cases ht with
  | waiting _ _ => cases hmem
  | ended r _ _ _ _ =>
    rw [List.mem_singleton.mp hmem] at hf
    cases hf
  | greeted h rest _ _ _ _ _ =>
    cases pre with
    | nil =>
      simp only [List.nil_append, List.cons.injEq] at he
      rw [← he.1] at hf
      cases hf
    | cons x pre =>
      simp only [List.cons_append, List.cons.injEq] at he
      exact ⟨x, List.mem_cons_self, he.1 ▸ rfl⟩

theorem Told.refused {h : Handshake} (ht : Told s evs (some h)) (hv : h.version ≠ protocolVersion) :
    evs = [.closed (.versionMismatch protocolVersion h.version)] := by
  cases ht with
  | ended r _ _ _ hr => rw [(hr h rfl).2]
  | greeted _ _ _ hv' _ _ _ => exact absurd hv' hv

end

end Session

/-! ## The events of a run -/

namespace Drive

def events (tr : List Obs) : List SessionEvent := (outputs tr).filterMap Output.event?

def hello (tr : List Obs) : Option Handshake := firstHandshake (handed tr)

theorem events_append (tr os : List Obs) : events (tr ++ os) = events tr ++ events os := by
  unfold events outputs
  rw [List.filterMap_append, List.filterMap_append]

theorem hello_append (tr os : List Obs) : hello (tr ++ os) = (hello tr).or (hello os) := by
  unfold hello
  rw [handed_append, firstHandshake_append]

theorem handed_outputs (os : List Output) : handed (os.map .out) = [] := by
  unfold handed
  rw [List.filterMap_map]
  exact List.filterMap_eq_nil_iff.mpr fun _ _ => rfl

inductive Tells (d d' : Drive) (os : List Obs) : Prop
  | nothing : d'.session.stage = d.session.stage → d'.session.machine = d.session.machine → outputs os = [] →
      handed os = [] → Tells d d' os
  | gives (s : Session) (ev : Event) (nonce : UInt64) (clock : Time) (write : Bool) : d.session.stage ≠ .done →
      s.stage = d.session.stage → s.machine = d.session.machine → d'.session = (s.give ev nonce clock write).1 →
      outputs os = (s.give ev nonce clock write).2 → handed os = ev.message?.toList → Tells d d' os
  | closes (r : CloseReason) : d.session.stage ≠ .done → d'.session = (d.session.close r).1 →
      outputs os = [.event (.closed r)] → handed os = [] → Tells d d' os

theorem step_tells {d d' : Drive} {a : Act} {os : List Obs} (h : step d a = some (d', os)) : Tells d d' os := by
  cases a with
  | start write =>
    simp only [step, Option.ite_none_right_eq_some, Option.some.injEq] at h
    obtain ⟨hs, rfl, rfl⟩ := h
    exact .gives d.session .started 0 0 write (by simp [hs]) rfl rfl rfl (outputs_out _) (handed_outputs _)
  | arrive n =>
    cases h
    exact .nothing rfl rfl rfl rfl
  | queue c =>
    simp only [step, Option.ite_none_right_eq_some, Option.some.injEq] at h
    obtain ⟨-, rfl, rfl⟩ := h
    exact .nothing (by simp) (by simp) rfl rfl
  | read nonce clock write =>
    simp only [step, Option.ite_none_right_eq_some] at h
    obtain ⟨hs, h⟩ := h
    have hd : d.session.stage ≠ .done := by simp [hs]
    split at h
    · cases h
      exact .nothing rfl rfl rfl rfl
    · rename_i n m hr
      cases h
      exact .gives d.session (.received m) nonce clock write hd rfl rfl rfl (outputs_handed _ _)
        (congrArg (m :: ·) (handed_outputs _))
    · rename_i n e hr
      cases h
      exact .closes (.framingError e) hd rfl rfl rfl
  | tick now nonce write =>
    simp only [step, Option.ite_none_right_eq_some, Option.some.injEq] at h
    obtain ⟨hs, rfl, rfl⟩ := h
    exact .gives d.session (.tick now) nonce 0 write (by simp [hs]) rfl rfl rfl (outputs_lose _ _) (handed_outputs _)
  | command write =>
    simp only [step, Option.ite_none_right_eq_some] at h
    obtain ⟨⟨hs, -⟩, h⟩ := h
    split at h
    · cases h
    · rename_i c cs hc
      cases h
      exact .gives { d.session with commands := cs } (.sendClipboard c) 0 0 write (by simp [hs]) rfl rfl rfl
        (outputs_lose _ _) (handed_outputs _)
  | commandsClosed =>
    simp only [step, Option.ite_none_right_eq_some, Option.some.injEq] at h
    obtain ⟨-, rfl, rfl⟩ := h
    exact .nothing rfl rfl rfl rfl
  | lost e =>
    simp only [step, Option.ite_none_right_eq_some, Option.some.injEq] at h
    obtain ⟨hs, rfl, rfl⟩ := h
    exact .closes (.connectionLost e) (by simp [hs]) rfl rfl rfl

section
variable {localId : LocalIdentity} {interval : Time} {token : Option TokenBytes} {bytes : List UInt8}
  {tr : List Obs} {d : Drive}

theorem run_told (h : Run (system (.new localId interval token) bytes) always tr d) :
    d.session.Told (events tr) (hello tr) := by
  refine h.invariant (I := fun tr d => d.session.Told (events tr) (hello tr)) (fun s h0 => ?_)
    (fun tr d a d' os _ hi _ hstep => ?_)
  · rw [h0]
    exact .waiting rfl (by simp [initial, Session.new])
  · rw [events_append, hello_append]
    cases step_tells hstep with
    | nothing hst hm ho hh =>
      have he : events os = [] := by rw [events, ho]; rfl
      have hn : hello os = none := by rw [hello, hh]; rfl
      rw [he, hn, List.append_nil, Option.or_none]
      exact hi.same hst hm
    | gives s ev nonce clock write hd hst hm hs ho hh =>
      rw [events.eq_def os, hello.eq_def os, ho, hh, hs]
      exact (hi.same hst hm).give (hst ▸ hd) ev nonce clock write
    | closes r hd hs ho hh =>
      have he : events os = [.closed r] := by rw [events, ho]; rfl
      have hn : hello os = none := by rw [hello, hh]; rfl
      rw [he, hn, Option.or_none, hs]
      exact hi.close hd r

/-- The task tells of its exit, then and only then, once and last; of the peer's
handshake at most once and before what the peer does; and of nothing but the
version when the first handshake it received carries another. -/
theorem run_events (h : Run (system (.new localId interval token) bytes) always tr d) :
    (d.session.stage ≠ .done → ∀ r, .closed r ∉ events tr) ∧
    (d.session.stage = .done → ∃ pre r, events tr = pre ++ [.closed r] ∧ ∀ r', .closed r' ∉ pre) ∧
    (events tr).countP SessionEvent.isPeerHandshake ≤ 1 ∧
    (∀ pre e post, events tr = pre ++ e :: post → e.isFromPeer = true → ∃ x ∈ pre, x.isPeerHandshake = true) ∧
    ∀ hs, firstHandshake (handed tr) = some hs → hs.version ≠ protocolVersion →
      events tr = [.closed (.versionMismatch protocolVersion hs.version)] := by
  have ht := run_told h
  refine ⟨ht.closed.1, ht.closed.2, ht.handshake_once, fun pre e post he hf => ht.handshake_first he hf, ?_⟩
  intro hs hh hv
  rw [show hello tr = some hs from hh] at ht
  exact ht.refused hv

end

/-- A peer of the next version, with a clip in front of its handshake and another behind it. -/
def newerPeer : List Message :=
  [.clipboard ⟨mimeTextPlain, [104, 105], Bytes.fill 32 0⟩, .handshake ⟨2, Bytes.fill 32 2, "phone", [], none⟩,
    .clipboard ⟨mimeTextPlain, [], Bytes.fill 32 0⟩]

def newerRun : List Act := [.start true, .arrive 200, .read 0 0 true, .read 0 0 true]

theorem newerRun_enabled :
    (exec (system pc (newerPeer.flatMap frame)) anyway [] (initial pc (newerPeer.flatMap frame)) newerRun).isSome =
      true := by
  decide +kernel

theorem run_events_newer :
    events ((exec (system pc (newerPeer.flatMap frame)) anyway [] (initial pc (newerPeer.flatMap frame)) newerRun).get
      newerRun_enabled).1 = [.closed (.versionMismatch 1 2)] :=
  (run_events (run_of_anyway rfl newerRun_enabled)).2.2.2.2 ⟨2, Bytes.fill 32 2, "phone", [], none⟩
    (by decide +kernel) (by decide)

end Drive

end PenguinSync
