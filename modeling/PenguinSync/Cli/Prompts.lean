import PenguinSync.Cli.Tui
import PenguinSync.Daemon.Authorization
import PenguinSync.Store.Devices

/-!
# Every pin was confirmed at a prompt

A TUI answers the prompt it shows, and what it shows is what the daemon asked for.
So where nobody else answers, each device the daemon comes to trust was accepted
by someone who had its own fingerprint on the screen.
-/

namespace PenguinSync

open Lts

namespace Cli

def Obs.daemon? : Obs → Option PenguinSync.Obs
  | .daemon o => some o
  | .refreshed .. => none

namespace Desktop

def daemonTrace (tr : List Obs) : List PenguinSync.Obs := tr.filterMap Obs.daemon?

def attended : Act → Bool
  | .daemon (.confirmPairing ..) => false
  | _ => true

/-- The daemon has asked for this, under the id and the fingerprint of one device. -/
def Asked (tr : List Obs) (c : PendingConfirmation) : Prop :=
  (∃ id, c.deviceId = toHex id ∧ c.fingerprint = shortFingerprint id) ∧
    .daemon (.pairingRequested c.deviceId c.fingerprint c.name) ∈ tr

structure Prompted (tr : List Obs) (t : Tui) : Prop where
  shown : ∀ c, t.confirmation = some c → Asked tr c
  queued : ∀ c ∈ t.pairingRequests, Asked tr c
  answering : ∀ hex accept, t.pc = .confirming hex accept → ∃ c, t.confirmation = some c ∧ c.deviceId = hex

/-- A device accepted at a prompt: `before` is what had happened when the TUI, with
that prompt open, gave the answer. -/
def Vouched (cfg : Config) (file : Option PersistedState) (clipboard : Content) (pre : List Obs) (id : DeviceId) : Prop :=
  ∃ before after d k c, pre = before ++ .daemon (.confirmed id true) :: after ∧
    Run (system cfg file clipboard) (fun _ _ a => attended a = true) before d ∧
    (d.tuis k).pc = .confirming (toHex id) true ∧ (d.tuis k).confirmation = some c ∧
    c.deviceId = toHex id ∧ c.fingerprint = shortFingerprint id ∧
    .daemon (.pairingRequested c.deviceId c.fingerprint c.name) ∈ before ∧
    (∃ bytes at_, .daemon (.redeemed id bytes at_) ∈ before) ∧ ∀ id', .daemon (.pinned id') ∉ after

section
variable {cfg : Config} {file : Option PersistedState} {clipboard : Content}
variable {d d' : Desktop} {a : Act} {tr os : List Obs} {id : DeviceId}

/-! ## The daemon of the desktop -/

theorem daemonTrace_append : daemonTrace (tr ++ os) = daemonTrace tr ++ daemonTrace os := List.filterMap_append

theorem daemonTrace_map (os : List PenguinSync.Obs) : daemonTrace (os.map .daemon) = os := by
  unfold daemonTrace
  rw [List.filterMap_map]
  exact List.filterMap_some

theorem mem_daemonTrace {o : PenguinSync.Obs} : o ∈ daemonTrace tr ↔ .daemon o ∈ tr := by
  unfold daemonTrace
  rw [List.mem_filterMap]
  constructor
  · rintro ⟨x, hx, he⟩
    cases x with
    | daemon o' =>
      cases he
      exact hx
    | refreshed => cases he
  · exact fun h => ⟨_, h, rfl⟩

theorem daemonTrace_split {o : PenguinSync.Obs} {x y : List PenguinSync.Obs} (h : daemonTrace tr = x ++ o :: y) :
    ∃ before after, tr = before ++ .daemon o :: after ∧ daemonTrace before = x ∧ daemonTrace after = y := by
  obtain ⟨before, rest, rfl, hx, hrest⟩ := List.filterMap_eq_append_iff.mp h
  obtain ⟨skipped, e, after, rfl, hskip, he, hy⟩ := List.filterMap_eq_cons_iff.mp hrest
  cases e with
  | daemon o' =>
    cases he
    refine ⟨before ++ skipped, after, by rw [List.append_assoc], ?_, hy⟩
    rw [daemonTrace_append, show daemonTrace before = x from hx,
      show daemonTrace skipped = [] from List.filterMap_eq_nil_iff.mpr hskip, List.append_nil]
  | refreshed => cases he

theorem step_daemon (h : step cfg d a = some (d', os)) :
    (∃ b, d.daemon.step cfg b = some (d'.daemon, daemonTrace os)) ∨ d'.daemon = d.daemon ∧ daemonTrace os = [] := by
  cases step_move h with
  | @daemon b s os' _ _ hs =>
    refine Or.inl ⟨b, ?_⟩
    rw [daemonTrace_map]
    exact hs
  | asked random => exact Or.inl ⟨.startPairing random, rfl⟩
  | begun i random hcall => exact Or.inl ⟨.startPairing random, rfl⟩
  | @set j addrs call s os' hcall hs =>
    have hnone : daemonTrace (call.stale.toList.map fun _ => .refreshed d.daemon.currentToken d.daemon.now) = [] := by
      cases call.stale <;> rfl
    refine Or.inl ⟨.setToken j addrs, ?_⟩
    rw [daemonTrace_append, daemonTrace_map, hnone, List.append_nil, (reply_calls call os').2]
    exact hs
  | @reached k hex accept _ =>
    refine Or.inl ⟨.confirmPairing hex accept, ?_⟩
    rw [daemonTrace_map]
    rfl
  | _ => exact Or.inr ⟨rfl, rfl⟩

theorem run_daemon {C : List Obs → Desktop → Act → Prop} (h : Run (system cfg file clipboard) C tr d) :
    Run (Daemon.system cfg file clipboard) always (daemonTrace tr) d.daemon := by
  induction h with
  | init h0 =>
    rw [h0]
    exact .init rfl
  | step _ _ hs ih =>
    rw [daemonTrace_append]
    rcases step_daemon hs with ⟨b, hb⟩ | ⟨hd, hos⟩
    · exact .step ih trivial hb
    · rw [hd, hos, List.append_nil]
      exact ih

/-! ## What the prompts show -/

theorem request_step {s s' : Daemon} {b : Daemon.Act} {os : List PenguinSync.Obs} {hex fp name : String}
    (h : s.step cfg b = some (s', os)) (ho : .pairingRequested hex fp name ∈ os) :
    ∃ id, hex = toHex id ∧ fp = shortFingerprint id := by
  obtain ⟨ok, target, rfl, ht⟩ := Daemon.step_turn h ho (by simp) rfl rfl
  obtain ⟨hh, pc, -, hs⟩ := ht.of_handshaking ho rfl
  cases Daemon.handshakeStep_move hs with
  | asks =>
    simp only [List.mem_singleton, PenguinSync.Obs.pairingRequested.injEq] at ho
    exact ⟨hh.deviceId, ho.1, ho.2.1⟩
  | _ => simp at ho

theorem Asked.append {c : PendingConfirmation} (h : Asked tr c) (os : List Obs) : Asked (tr ++ os) c :=
  ⟨h.1, List.mem_append_left _ h.2⟩

theorem Prompted.append {t : Tui} (h : Prompted tr t) (os : List Obs) : Prompted (tr ++ os) t where
  shown c hc := (h.shown c hc).append os
  queued c hc := (h.queued c hc).append os
  answering := h.answering

theorem prompted_quiet {t : Tui} (hc : t.confirmation = none) (hq : ∀ c ∈ t.pairingRequests, Asked tr c)
    (hpc : ∀ hex accept, t.pc ≠ .confirming hex accept) : Prompted tr t := by
  refine ⟨fun c h => ?_, hq, fun hex accept h => absurd h (hpc hex accept)⟩
  rw [hc] at h
  cases h

theorem Prompted.moves {t t' : Tui} (h : Prompted tr t) (hc : t'.confirmation = t.confirmation)
    (hq : t'.pairingRequests = t.pairingRequests) (hpc : ∀ hex accept, t'.pc ≠ .confirming hex accept) :
    Prompted tr t' := by
  refine ⟨?_, ?_, fun hex accept he => absurd he (hpc hex accept)⟩
  · rw [hc]
    exact h.shown
  · rw [hq]
    exact h.queued

theorem Prompted.key {t : Tui} (h : Prompted tr t) (hpc : t.pc = .select) (key : Key) : Prompted tr (t.handleKey key) := by
  have hstay : Prompted tr t := h
  unfold Tui.handleKey
  split
  · rename_i c hc
    have hanswer : ∀ accept, Prompted tr { t with pc := .confirming c.deviceId accept } := fun accept =>
      ⟨h.shown, h.queued, fun hex _ he => by cases he; exact ⟨c, hc, rfl⟩⟩
    cases key with
    | y => exact hanswer true
    | n | esc => exact hanswer false
    | q | p => exact h
  · by_cases he : t.pairingDisplay.isSome = true ∧ key = .esc
    · rw [if_pos he]
      exact h.moves rfl rfl fun hex accept hx => by cases hpc.symm.trans hx
    · rw [if_neg he]
      cases key with
      | q | esc => exact prompted_quiet rfl (fun c hc => by cases hc) fun hex accept hx => by cases hx
      | p => exact h.moves rfl rfl fun hex accept hx => by cases hx
      | y | n => exact h

theorem Prompted.hear {t : Tui} {signals : List PendingConfirmation} (h : Prompted tr t)
    (hs : ∀ c ∈ signals, Asked tr c) : Prompted tr (t.hear signals) := by
  unfold Tui.hear
  by_cases hpc : t.pc = .off
  · rw [if_pos hpc]
    exact h
  · rw [if_neg hpc]
    refine ⟨h.shown, fun c hc => ?_, h.answering⟩
    rcases List.mem_append.mp hc with hc | hc
    · exact h.queued c hc
    · exact hs c hc

theorem prompted_setTui {k : Nat} {t : Tui} (hi : ∀ k, Prompted tr (d.tuis k)) (ht : Prompted tr t) :
    ∀ j, Prompted tr ((d.setTui k t).tuis j) := by
  intro j
  by_cases hj : j = k
  · subst hj
    have hself : (d.setTui j t).tuis j = t := Function.update_self ..
    rw [hself]
    exact ht
  · have hne : (d.setTui k t).tuis j = d.tuis j := Function.update_of_ne hj ..
    rw [hne]
    exact hi j

theorem prompted_step (hi : ∀ k, Prompted tr (d.tuis k)) (h : step cfg d a = some (d', os)) :
    ∀ k, Prompted (tr ++ os) (d'.tuis k) := by
  have hi' : ∀ k, Prompted (tr ++ os) (d.tuis k) := fun k => (hi k).append os
  cases step_move h with
  | @daemon b s os' _ _ hs =>
    intro k
    refine (hi' k).hear fun c hc => ?_
    obtain ⟨o, ho, he⟩ := List.mem_filterMap.mp hc
    split at he
    · cases he
      exact ⟨request_step hs ho, List.mem_append_right _ (List.mem_map_of_mem ho)⟩
    · cases he
  | asked random => exact hi'
  | begun i random hcall => exact hi'
  | @set j addrs call s os' hcall hs =>
    unfold reply
    split
    · split
      · rename_i k _
        exact prompted_setTui hi' ((hi' k).moves rfl rfl fun hex accept hx => by cases hx)
      · exact hi'
    · exact hi'
  | lost i hlt => exact hi'
  | started k hpc =>
    exact prompted_setTui hi' (prompted_quiet rfl (fun c hc => by cases hc) fun hex accept hx => by cases hx)
  | pressed k key hpc => exact prompted_setTui hi' ((hi' k).key hpc key)
  | @heard k c rest hpc hq =>
    refine prompted_setTui hi' ⟨fun c' hc => ?_, fun c' hc => ?_, fun hex accept hx => by cases hpc.symm.trans hx⟩
    · cases hc
      exact (hi' k).queued c (by rw [hq]; exact List.mem_cons_self)
    · exact (hi' k).queued c' (by rw [hq]; exact List.mem_cons_of_mem _ hc)
  | ticked k hpc | regenerates k hpc hp | leaves k hpc hp | shown k hpc | unrendered k hpc =>
    exact prompted_setTui hi' ((hi' k).moves rfl rfl fun hex accept hx => by cases hx)
  | failed k hpc =>
    exact prompted_setTui (d := d.orphan k) hi' ((hi' k).moves rfl rfl fun hex accept hx => by cases hx)
  | @reached k hex accept hpc =>
    exact prompted_setTui (d := { d with daemon := _ }) hi'
      (prompted_quiet rfl (hi' k).queued fun hex accept hx => by cases hx)
  | unreached k hpc => exact prompted_setTui hi' (prompted_quiet rfl (hi' k).queued fun hex accept hx => by cases hx)
  | exited k hpc =>
    exact prompted_setTui (d := d.orphan k) hi'
      (prompted_quiet rfl (fun c hc => by cases hc) fun hex accept hx => by cases hx)

theorem run_prompted {C : List Obs → Desktop → Act → Prop} (h : Run (system cfg file clipboard) C tr d) :
    ∀ k, Prompted tr (d.tuis k) := by
  refine h.invariant (I := fun tr d => ∀ k, Prompted tr (d.tuis k)) (fun d h0 k => ?_)
    (fun _ _ _ _ _ _ hi _ hs => prompted_step hi hs)
  rw [h0]
  exact prompted_quiet rfl (fun c hc => by cases hc) fun hex accept hx => by cases hx

/-! ## Who answers, and what for -/

theorem split_at {α : Type} {l : List α} {k : Nat} {x : α} (h : l[k]? = some x) :
    l = l.take k ++ x :: l.drop (k + 1) := by
  obtain ⟨hk, rfl⟩ := List.getElem?_eq_some_iff.mp h
  rw [List.getElem_cons_drop, List.take_append_drop]

/-- Where only the TUIs answer, a confirmation is the answer of one to the prompt on its screen. -/
theorem confirmed_answered {accept : Bool} (hi : ∀ k, Prompted tr (d.tuis k)) (ha : attended a = true)
    (h : step cfg d a = some (d', os)) (ho : .daemon (.confirmed id accept) ∈ os) :
    os = [.daemon (.confirmed id accept)] ∧ ∃ k c, (d.tuis k).pc = .confirming (toHex id) accept ∧
      (d.tuis k).confirmation = some c ∧ c.deviceId = toHex id ∧ Asked tr c := by
  have hb : .confirmed id accept ∈ daemonTrace os := mem_daemonTrace.mpr ho
  cases step_move h with
  | @daemon b s os' _ _ hs =>
    rw [daemonTrace_map] at hb
    obtain ⟨hex, rfl, -⟩ := Daemon.confirmed_step hs hb
    cases ha
  | @set j addrs call s os' hcall hs =>
    have hb := mem_daemonTrace.mp hb
    rcases List.mem_append.mp hb with hb | hb
    · obtain ⟨o, hm, he⟩ := List.mem_map.mp hb
      cases he
      obtain ⟨hex, hx, -⟩ := Daemon.confirmed_step (a := .setToken j addrs) hs hm
      cases hx
    · obtain ⟨p, -, he⟩ := List.mem_map.mp hb
      cases he
  | @reached k hex accept' hpc =>
    rw [daemonTrace_map] at hb
    obtain ⟨c, hc, rfl⟩ := (hi k).answering hex accept' hpc
    obtain ⟨⟨id', hid, hfp⟩, hm⟩ := (hi k).shown c hc
    have hos : (d.daemon.confirmPairing c.deviceId accept').2 = [.confirmed id' accept'] := by
      unfold Daemon.confirmPairing
      rw [hid, fromHex_toHex]
      simp only
      split <;> rfl
    rw [hos, List.mem_singleton] at hb
    cases hb
    rw [hos]
    exact ⟨rfl, k, c, hid ▸ hpc, hc, hid, ⟨id, hid, hfp⟩, hm⟩
  | _ => cases hb

end

/-- TUI 0 shows a code; the phone scans it, presents its token and is accepted at the prompt. -/
def saysYes : List Act :=
  [.start 0, .key 0 .p, .begin 0 Daemon.Sample.token, .daemon (.openWindow 0), .setToken 0 [], .receive 0 true] ++
    (Daemon.Sample.connect 0 (Daemon.Sample.addr 2) Daemon.Sample.phoneKey ++
      Daemon.Sample.greet 0 Daemon.Sample.phone (some Daemon.Sample.token) ++ Daemon.Sample.turns 5).map .daemon ++
    [.signal 0, .key 0 .y, .answered 0 true] ++ (Daemon.Sample.turns 9).map .daemon

open Daemon.Sample in
theorem saysYes_enabled : (exec (system cfg none empty) (fun _ _ a => attended a) [] (new (.initial none empty))
    saysYes).isSome = true := by
  decide +kernel

end Desktop

end Cli

end PenguinSync
