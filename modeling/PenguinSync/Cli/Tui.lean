import Mathlib.Logic.Function.Basic
import PenguinSync.Daemon.Calls

/-!
# The terminal clients

Any number of TUIs and of other clients call one daemon over the bus, and they
read the same clock. A TUI waits for one thing at a time; a call it gave up on
may still reach the daemon. Keys that only move the selection, or that unpair,
are left out, as is what is drawn.
-/

namespace PenguinSync

open Lts

namespace Cli

/-! ## One TUI -/

structure PendingConfirmation where
  deviceId : String
  fingerprint : String
  name : String
  deriving DecidableEq

/-- `uri` is what the URI behind the code encodes. -/
structure PairingDisplay where
  uri : QrPayload
  fingerprint : String
  issuedAt : Time
  deriving DecidableEq

/-- What the TUI waits for. `ticked` holds the clock reading of the refresh
whose `list_devices` is out; `replied` the reply to a `start_pairing`. -/
inductive TuiPc where
  | off
  | select
  | ticked (now : Time)
  | pairing (refresh : Bool)
  | replied (refresh : Bool) (uri : QrPayload) (fingerprint : String)
  | confirming (deviceId : String) (accept : Bool)
  deriving DecidableEq

structure Tui where
  pc : TuiPc
  pairingDisplay : Option PairingDisplay
  confirmation : Option PendingConfirmation
  pairingRequests : List PendingConfirmation

inductive Key where
  | y
  | n
  | esc
  | q
  | p
  deriving DecidableEq

def shouldRegenerate (issuedAt now : Time) (confirmationOpen : Bool) : Bool :=
  !confirmationOpen && tokenTtl ≤ now - issuedAt

namespace Tui

def off : Tui := ⟨.off, none, none, []⟩

def new : Tui := ⟨.select, none, none, []⟩

def handleKey (t : Tui) (key : Key) : Tui :=
  match t.confirmation with
  | some c =>
    match key with
    | .y => { t with pc := .confirming c.deviceId true }
    | .n | .esc => { t with pc := .confirming c.deviceId false }
    | _ => t
  | none =>
    if t.pairingDisplay.isSome ∧ key = .esc then { t with pairingDisplay := none }
    else
      match key with
      | .q | .esc => off
      | .p => { t with pc := .pairing false }
      | _ => t

def answered (t : Tui) (accept : Bool) : Tui :=
  { t with
    pc := .select, confirmation := none
    pairingDisplay := if accept then none else t.pairingDisplay }

def stale (t : Tui) (now : Time) : Option PairingDisplay :=
  t.pairingDisplay.filter fun p => shouldRegenerate p.issuedAt now t.confirmation.isSome

/-- `start_pairing` fails: a refresh takes the stale code off the screen. -/
def failed (t : Tui) (refresh : Bool) : Tui :=
  { t with pc := .select, pairingDisplay := if refresh then none else t.pairingDisplay }

def hear (t : Tui) (signals : List PendingConfirmation) : Tui :=
  if t.pc = .off then t else { t with pairingRequests := t.pairingRequests ++ signals }

end Tui

/-! ## The clients of one daemon -/

/-- A `start_pairing` call: the TUI that waits for its reply, if any does, and
for a refresh the code it found stale. -/
structure Call where
  tui : Option Nat
  stale : Option PairingDisplay

def Call.Expired (now : Time) (c : Call) : Prop := ∀ p, c.stale = some p → p.issuedAt + tokenTtl ≤ now

theorem Call.Expired.mono {c : Call} {now now' : Time} (h : c.Expired now) (hle : now ≤ now') : c.Expired now' :=
  fun p hp => Nat.le_trans (h p hp) hle

/-- `sent` are the calls on the bus, `calls` those the daemon is handling, in its own order. -/
structure Desktop where
  daemon : Daemon
  sent : List Call
  calls : List Call
  tuis : Nat → Tui

inductive Act where
  | daemon (a : Daemon.Act)
  | begin (i : Nat) (random : TokenBytes)
  | setToken (j : Nat) (addrs : List SocketAddr)
  | lose (i : Nat)
  | start (k : Nat)
  | key (k : Nat) (key : Key)
  | signal (k : Nat)
  | tick (k : Nat)
  | listed (k : Nat)
  | receive (k : Nat) (rendered : Bool)
  | fail (k : Nat)
  | answered (k : Nat) (reached : Bool)
  | exit (k : Nat)

/-- `refreshed`: a refresh replaced what the slot held. -/
inductive Obs where
  | daemon (o : PenguinSync.Obs)
  | refreshed (replaced : Option PairingToken) (now : Time)
  deriving DecidableEq

namespace Desktop

def setTui (d : Desktop) (k : Nat) (t : Tui) : Desktop := { d with tuis := Function.update d.tuis k t }

/-- Nobody waits for the calls of `k` any more. -/
def orphan (d : Desktop) (k : Nat) : Desktop :=
  let forget (c : Call) : Call := if c.tui = some k then { c with tui := none } else c
  { d with sent := d.sent.map forget, calls := d.calls.map forget }

def signals (os : List PenguinSync.Obs) : List PendingConfirmation :=
  os.filterMap fun o =>
    match o with
    | .pairingRequested deviceId fingerprint name => some ⟨deviceId, fingerprint, name⟩
    | _ => none

def settle (d : Desktop) (s : Daemon) (os : List PenguinSync.Obs) : Desktop :=
  { d with daemon := s, tuis := fun k => (d.tuis k).hear (signals os) }

def reply (d : Desktop) (call : Call) : List PenguinSync.Obs → Desktop
  | [.tokenSet _ _, .startedPairing uri fingerprint] =>
    match call.tui with
    | some k => d.setTui k { d.tuis k with pc := .replied call.stale.isSome uri fingerprint }
    | none => d
  | _ => d

def step (cfg : Config) (d : Desktop) : Act → Option (Desktop × List Obs)
  | .daemon (.setToken _ _) => none
  | .daemon (.startPairing random) =>
    some ({ d with daemon := d.daemon.startPairing random, calls := d.calls ++ [⟨none, none⟩] }, [])
  | .daemon a => (d.daemon.step cfg a).map fun r => (d.settle r.1 r.2, r.2.map .daemon)
  | .begin i random =>
    match d.sent[i]? with
    | some call =>
      some ({ d with
        daemon := d.daemon.startPairing random, sent := d.sent.eraseIdx i, calls := d.calls ++ [call] }, [])
    | none => none
  | .setToken j addrs =>
    match d.calls[j]?, d.daemon.setToken cfg j addrs with
    | some call, some (s, os) =>
      some (({ d with daemon := s, calls := d.calls.eraseIdx j } : Desktop).reply call os,
        os.map .daemon ++
          match call.stale with
          | some _ => [.refreshed d.daemon.currentToken d.daemon.now]
          | none => [])
    | _, _ => none
  | .lose i => if i < d.sent.length then some ({ d with sent := d.sent.eraseIdx i }, []) else none
  | .start k => if (d.tuis k).pc = .off then some (d.setTui k .new, []) else none
  | .key k key =>
    if (d.tuis k).pc = .select then
      let t := (d.tuis k).handleKey key
      some ({ d.setTui k t with sent := if t.pc = .pairing false then d.sent ++ [⟨some k, none⟩] else d.sent }, [])
    else none
  | .signal k =>
    match (d.tuis k).pc, (d.tuis k).pairingRequests with
    | .select, c :: rest => some (d.setTui k { d.tuis k with confirmation := some c, pairingRequests := rest }, [])
    | _, _ => none
  | .tick k =>
    if (d.tuis k).pc = .select then some (d.setTui k { d.tuis k with pc := .ticked d.daemon.now }, []) else none
  | .listed k =>
    match (d.tuis k).pc with
    | .ticked now =>
      match (d.tuis k).stale now with
      | some p => some ({ d.setTui k { d.tuis k with pc := .pairing true } with sent := d.sent ++ [⟨some k, some p⟩] }, [])
      | none => some (d.setTui k { d.tuis k with pc := .select }, [])
    | _ => none
  | .receive k rendered =>
    match (d.tuis k).pc with
    | .replied refresh uri fingerprint =>
      if rendered then
        some (d.setTui k { d.tuis k with pc := .select, pairingDisplay := some ⟨uri, fingerprint, d.daemon.now⟩ }, [])
      else some (d.setTui k ((d.tuis k).failed refresh), [])
    | _ => none
  | .fail k =>
    match (d.tuis k).pc with
    | .pairing refresh => some ((d.orphan k).setTui k ((d.tuis k).failed refresh), [])
    | _ => none
  | .answered k reached =>
    match (d.tuis k).pc with
    | .confirming deviceId accept =>
      let r := if reached then d.daemon.confirmPairing deviceId accept else (d.daemon, [])
      some (({ d with daemon := r.1 } : Desktop).setTui k ((d.tuis k).answered accept), r.2.map .daemon)
    | _ => none
  | .exit k => if (d.tuis k).pc = .off then none else some ((d.orphan k).setTui k .off, [])

def new (s : Daemon) : Desktop := { daemon := s, sent := [], calls := [], tuis := fun _ => .off }

def system (cfg : Config) (file : Option PersistedState) (clipboard : Content) : System Desktop Act Obs :=
  { init := (· = new (.initial file clipboard)), step := step cfg }

/-! ## What one step does -/

section
variable {cfg : Config} {d d' : Desktop} {a : Act} {os tr : List Obs} {file : Option PersistedState} {clipboard : Content}

inductive Move (cfg : Config) (d : Desktop) : Act → Desktop → List Obs → Prop
  | daemon {a : Daemon.Act} {s : Daemon} {os : List PenguinSync.Obs} : (∀ random, a ≠ .startPairing random) →
      (∀ j addrs, a ≠ .setToken j addrs) → d.daemon.step cfg a = some (s, os) →
      Move cfg d (.daemon a) (d.settle s os) (os.map .daemon)
  | asked (random : TokenBytes) : Move cfg d (.daemon (.startPairing random))
      { d with daemon := d.daemon.startPairing random, calls := d.calls ++ [⟨none, none⟩] } []
  | begun (i : Nat) (random : TokenBytes) {call : Call} : d.sent[i]? = some call →
      Move cfg d (.begin i random)
        { d with daemon := d.daemon.startPairing random, sent := d.sent.eraseIdx i, calls := d.calls ++ [call] } []
  | set (j : Nat) (addrs : List SocketAddr) {call : Call} {s : Daemon} {os : List PenguinSync.Obs} :
      d.calls[j]? = some call → d.daemon.setToken cfg j addrs = some (s, os) →
      Move cfg d (.setToken j addrs) (({ d with daemon := s, calls := d.calls.eraseIdx j } : Desktop).reply call os)
        (os.map .daemon ++ call.stale.toList.map fun _ => .refreshed d.daemon.currentToken d.daemon.now)
  | lost (i : Nat) : i < d.sent.length → Move cfg d (.lose i) { d with sent := d.sent.eraseIdx i } []
  | started (k : Nat) : (d.tuis k).pc = .off → Move cfg d (.start k) (d.setTui k .new) []
  | pressed (k : Nat) (key : Key) : (d.tuis k).pc = .select →
      Move cfg d (.key k key)
        { d.setTui k ((d.tuis k).handleKey key) with
          sent := if ((d.tuis k).handleKey key).pc = .pairing false then d.sent ++ [⟨some k, none⟩] else d.sent } []
  | heard (k : Nat) {c : PendingConfirmation} {rest : List PendingConfirmation} : (d.tuis k).pc = .select →
      (d.tuis k).pairingRequests = c :: rest →
      Move cfg d (.signal k) (d.setTui k { d.tuis k with confirmation := some c, pairingRequests := rest }) []
  | ticked (k : Nat) : (d.tuis k).pc = .select →
      Move cfg d (.tick k) (d.setTui k { d.tuis k with pc := .ticked d.daemon.now }) []
  | regenerates (k : Nat) {now : Time} {p : PairingDisplay} : (d.tuis k).pc = .ticked now →
      (d.tuis k).stale now = some p →
      Move cfg d (.listed k)
        { d.setTui k { d.tuis k with pc := .pairing true } with sent := d.sent ++ [⟨some k, some p⟩] } []
  | leaves (k : Nat) {now : Time} : (d.tuis k).pc = .ticked now → (d.tuis k).stale now = none →
      Move cfg d (.listed k) (d.setTui k { d.tuis k with pc := .select }) []
  | shown (k : Nat) {refresh : Bool} {uri : QrPayload} {fingerprint : String} :
      (d.tuis k).pc = .replied refresh uri fingerprint →
      Move cfg d (.receive k true)
        (d.setTui k { d.tuis k with pc := .select, pairingDisplay := some ⟨uri, fingerprint, d.daemon.now⟩ }) []
  | unrendered (k : Nat) {refresh : Bool} {uri : QrPayload} {fingerprint : String} :
      (d.tuis k).pc = .replied refresh uri fingerprint →
      Move cfg d (.receive k false) (d.setTui k ((d.tuis k).failed refresh)) []
  | failed (k : Nat) {refresh : Bool} : (d.tuis k).pc = .pairing refresh →
      Move cfg d (.fail k) ((d.orphan k).setTui k ((d.tuis k).failed refresh)) []
  | reached (k : Nat) {deviceId : String} {accept : Bool} : (d.tuis k).pc = .confirming deviceId accept →
      Move cfg d (.answered k true)
        (({ d with daemon := (d.daemon.confirmPairing deviceId accept).1 } : Desktop).setTui k
          ((d.tuis k).answered accept))
        ((d.daemon.confirmPairing deviceId accept).2.map .daemon)
  | unreached (k : Nat) {deviceId : String} {accept : Bool} : (d.tuis k).pc = .confirming deviceId accept →
      Move cfg d (.answered k false) (d.setTui k ((d.tuis k).answered accept)) []
  | exited (k : Nat) : (d.tuis k).pc ≠ .off → Move cfg d (.exit k) ((d.orphan k).setTui k .off) []

theorem step_move (h : step cfg d a = some (d', os)) : Move cfg d a d' os := by
  cases a with
  | daemon a =>
    have hplain : (∀ random, a ≠ .startPairing random) → (∀ j addrs, a ≠ .setToken j addrs) →
        (d.daemon.step cfg a).map (fun r => (d.settle r.1 r.2, r.2.map Obs.daemon)) = some (d', os) →
        Move cfg d (.daemon a) d' os := by
      intro hstart hset h
      obtain ⟨r, hr, he⟩ := Option.map_eq_some_iff.mp h
      cases he
      exact .daemon hstart hset hr
    cases a with
    | setToken => cases h
    | startPairing random =>
      cases h
      exact .asked random
    | _ => exact hplain (fun _ he => by cases he) (fun _ _ he => by cases he) h
  | begin i random =>
    simp only [step] at h
    split at h
    · rename_i call hcall
      cases h
      exact .begun i random hcall
    · cases h
  | setToken j addrs =>
    simp only [step] at h
    split at h
    · rename_i call s os' hcall hs
      cases h
      have hmove := Move.set j addrs hcall hs
      revert hmove
      cases call.stale <;> exact id
    · cases h
  | lose i =>
    simp only [step, Option.ite_none_right_eq_some, Option.some.injEq, Prod.mk.injEq] at h
    obtain ⟨hi, rfl, rfl⟩ := h
    exact .lost i hi
  | start k =>
    simp only [step, Option.ite_none_right_eq_some, Option.some.injEq, Prod.mk.injEq] at h
    obtain ⟨hpc, rfl, rfl⟩ := h
    exact .started k hpc
  | key k key =>
    simp only [step, Option.ite_none_right_eq_some, Option.some.injEq, Prod.mk.injEq] at h
    obtain ⟨hpc, rfl, rfl⟩ := h
    exact .pressed k key hpc
  | signal k =>
    simp only [step] at h
    split at h
    · rename_i c rest hpc hreq
      cases h
      exact .heard k hpc hreq
    · cases h
  | tick k =>
    simp only [step, Option.ite_none_right_eq_some, Option.some.injEq, Prod.mk.injEq] at h
    obtain ⟨hpc, rfl, rfl⟩ := h
    exact .ticked k hpc
  | listed k =>
    simp only [step] at h
    split at h
    · rename_i now hpc
      split at h
      · rename_i p hp
        cases h
        exact .regenerates k hpc hp
      · rename_i hp
        cases h
        exact .leaves k hpc hp
    · cases h
  | receive k rendered =>
    simp only [step] at h
    split at h
    · rename_i refresh uri fingerprint hpc
      cases rendered with
      | true =>
        cases h
        exact .shown k hpc
      | false =>
        cases h
        exact .unrendered k hpc
    · cases h
  | fail k =>
    simp only [step] at h
    split at h
    · rename_i refresh hpc
      cases h
      exact .failed k hpc
    · cases h
  | answered k reached =>
    simp only [step] at h
    split at h
    · rename_i deviceId accept hpc
      cases reached with
      | true =>
        cases h
        exact .reached k hpc
      | false =>
        cases h
        exact .unreached k hpc
    · cases h
  | exit k =>
    simp only [step] at h
    split at h
    · cases h
    · rename_i hpc
      cases h
      exact .exited k hpc

/-! ## Whose calls the daemon handles -/

theorem startPairings_step {s s' : Daemon} {a : Daemon.Act} {os : List PenguinSync.Obs}
    (h : s.step cfg a = some (s', os)) (hstart : ∀ random, a ≠ .startPairing random)
    (hset : ∀ j addrs, a ≠ .setToken j addrs) : s'.startPairings.length = s.startPairings.length := by
  cases ha : a.task with
  | net =>
    obtain ⟨⟨_, _, _, rfl⟩, -⟩ := Daemon.net_frame h ha
    rfl
  | clipboard =>
    obtain ⟨⟨_, _, _, _, _, _, rfl⟩, -, -⟩ := Daemon.clipboard_frame h ha
    rfl
  | bus =>
    cases a with
    | startPairing random => exact absurd rfl (hstart random)
    | setToken j addrs => exact absurd rfl (hset j addrs)
    | openWindow k =>
      simp only [Daemon.step, Daemon.openWindow] at h
      split at h
      · cases h
        exact List.length_set
      · cases h
    | confirmPairing hex accept =>
      simp only [Daemon.step, Daemon.confirmPairing] at h
      split at h
      · cases h
        rfl
      · split at h <;> (cases h; rfl)
    | unpair hex =>
      simp only [Daemon.step, Daemon.unpair] at h
      split at h <;> (cases h; rfl)
    | unpairStep k ok =>
      cases Daemon.unpairStep_move h with
      | unpin _ _ _ hs | remove _ _ _ hs | removeObject _ _ _ hs => rw [hs]
      | persist _ _ _ hs => rw [hs]
    | restore =>
      obtain ⟨⟨_, _, rfl⟩, -⟩ := Daemon.restore_frame h
      rfl
    | _ => cases ha
  | orchestrator =>
    cases a with
    | orchestrate ok target =>
      cases Daemon.orchestrate_turn h with
      | taken i e rest _ _ hd =>
        obtain ⟨⟨_, _, _, rfl⟩, -⟩ := Daemon.dispatch_frame hd
        rfl
      | handshake hh pc _ hs =>
        obtain ⟨⟨_, _, _, _, _, _, _, _, _, rfl, -⟩, -⟩ := Daemon.handshakeStep_frame hs
        rfl
      | received r pc _ hr =>
        obtain ⟨⟨_, _, _, _, _, rfl, -⟩, -, -⟩ := Daemon.receivedStep_frame hr
        rfl
      | closed id pc _ hcl =>
        subst hcl
        cases pc <;> rfl
    | _ => cases ha

/-- Every call the daemon handles is someone's. -/
def Paired (d : Desktop) : Prop := d.calls.length = d.daemon.startPairings.length

theorem reply_calls (call : Call) (os : List PenguinSync.Obs) :
    (d.reply call os).calls = d.calls ∧ (d.reply call os).daemon = d.daemon := by
  unfold Desktop.reply
  split
  · split
    · exact ⟨rfl, rfl⟩
    · exact ⟨rfl, rfl⟩
  · exact ⟨rfl, rfl⟩

theorem Paired.step (hi : Paired d) (h : step cfg d a = some (d', os)) : Paired d' := by
  have hsnoc : ∀ (call : Call) (random : TokenBytes),
      (d.calls ++ [call]).length = (d.daemon.startPairing random).startPairings.length := by
    intro call random
    rw [List.length_append, hi, Daemon.startPairing, List.length_append]
    rfl
  cases step_move h with
  | daemon hstart hset hs => exact hi.trans (startPairings_step hs hstart hset).symm
  | asked random => exact hsnoc _ _
  | begun i random hcall => exact hsnoc _ _
  | @set j addrs call s os' hcall hs =>
    obtain ⟨hcalls, hd⟩ := reply_calls (d := { d with daemon := s, calls := d.calls.eraseIdx j }) call os'
    unfold Paired
    rw [hcalls, hd]
    unfold Daemon.setToken at hs
    split at hs
    · rename_i random now hj
      cases hs
      have hlt : j < d.daemon.startPairings.length := (List.getElem?_eq_some_iff.mp hj).1
      rw [List.length_eraseIdx_of_lt hlt, List.length_eraseIdx_of_lt (hi.symm ▸ hlt), hi]
    · cases hs
  | @reached k hex accept hpc =>
    have hstep : d.daemon.step cfg (.confirmPairing hex accept) = some (d.daemon.confirmPairing hex accept) := rfl
    exact hi.trans (startPairings_step hstep (fun _ he => by cases he) fun _ _ he => by cases he).symm
  | failed k | exited k => exact (List.length_map _).trans hi
  | _ => exact hi

/-- Every call that is to set the token has its caller: the bookkeeping holds no step of the daemon back. -/
theorem run_paired {C : List Obs → Desktop → Act → Prop} (h : Run (system cfg file clipboard) C tr d) : Paired d := by
  refine h.invariant (I := fun _ d => Paired d) (fun d h0 => ?_) (fun _ _ _ _ _ _ hi _ hs => hi.step hs)
  rw [h0]
  rfl

end

end Desktop

end Cli

end PenguinSync
