import PenguinSync.Cli.Tui

/-!
# The automatic refresh of the pairing code

A refresh is decided on the TUI's own clock reading of its own code, and by then
that code's token has expired. The daemon has one slot, though, and it may hold
another client's token when the call is handled.
-/

namespace PenguinSync

open Lts

namespace Cli

namespace Desktop

/-! ## What a refresh replaces -/

/-- A refresh finds in the slot no token that is newer than the code it found
stale, but one that is redeemed. -/
def Untouched (d : Desktop) : Act → Prop
  | .setToken j _ => ∀ call p t, d.calls[j]? = some call → call.stale = some p → d.daemon.currentToken = some t →
      t.redeemed = true ∨ t.issuedAt ≤ p.issuedAt
  | _ => True

/-- The clock has passed what the TUIs have read of it, and every code found stale has expired. -/
structure Timed (d : Desktop) : Prop where
  ticked : ∀ k now, (d.tuis k).pc = .ticked now → now ≤ d.daemon.now
  sent : ∀ c ∈ d.sent, c.Expired d.daemon.now
  calls : ∀ c ∈ d.calls, c.Expired d.daemon.now

section
variable {cfg : Config} {d d' : Desktop} {a : Act} {os tr : List Obs}

theorem add_le_of_le_sub {a b c : Nat} (h0 : 0 < a) (h : a ≤ c - b) : b + a ≤ c := by
  omega

theorem stale_expired {t : Tui} {now : Time} {p : PairingDisplay} (h : t.stale now = some p) :
    p.issuedAt + tokenTtl ≤ now := by
  unfold Tui.stale at h
  obtain ⟨-, hs⟩ := Option.filter_eq_some_iff.mp h
  simp only [shouldRegenerate, Bool.and_eq_true, decide_eq_true_eq] at hs
  exact add_le_of_le_sub (by decide) hs.2

theorem setTui_self {k : Nat} {t : Tui} : (d.setTui k t).tuis k = t := Function.update_self ..

theorem setTui_of_ne {k j : Nat} {t : Tui} (h : j ≠ k) : (d.setTui k t).tuis j = d.tuis j := Function.update_of_ne h ..

/-! ## One step -/

/-- Only what TUI `k` waits for changes, and the calls on the bus. -/
theorem Timed.setTui {k : Nat} {t : Tui} {sent calls : List Call} (hi : Timed d)
    (ht : ∀ now, t.pc = .ticked now → now ≤ d.daemon.now) (hsent : ∀ c ∈ sent, c.Expired d.daemon.now)
    (hcalls : ∀ c ∈ calls, c.Expired d.daemon.now) : Timed { d.setTui k t with sent, calls } := by
  refine ⟨fun j now h => ?_, hsent, hcalls⟩
  by_cases hj : j = k
  · subst hj
    have hself : (d.setTui j t).tuis j = t := setTui_self
    exact ht now (hself ▸ h)
  · have hne : (d.setTui k t).tuis j = d.tuis j := setTui_of_ne hj
    exact hi.ticked j now (hne ▸ h)

/-- The daemon takes a step, and no TUI waits for anything else. -/
theorem Timed.daemon {s : Daemon} {tuis : Nat → Tui} {sent calls : List Call} (hi : Timed d)
    (hnow : d.daemon.now ≤ s.now) (hpc : ∀ k now, (tuis k).pc = .ticked now → (d.tuis k).pc = .ticked now)
    (hsent : ∀ c ∈ sent, c.Expired d.daemon.now) (hcalls : ∀ c ∈ calls, c.Expired d.daemon.now) :
    Timed ⟨s, sent, calls, tuis⟩ where
  ticked k now h := Nat.le_trans (hi.ticked k now (hpc k now h)) hnow
  sent c hc := (hsent c hc).mono hnow
  calls c hc := (hcalls c hc).mono hnow

theorem expired_append {calls : List Call} {c : Call} {now : Time} (h : ∀ c ∈ calls, c.Expired now)
    (hc : c.Expired now) : ∀ x ∈ calls ++ [c], x.Expired now := by
  intro x hx
  rcases List.mem_append.mp hx with hx | hx
  · exact h x hx
  · rw [List.mem_singleton.mp hx]
    exact hc

theorem expired_forget {calls : List Call} {k : Nat} {now : Time} (h : ∀ c ∈ calls, c.Expired now) :
    ∀ c ∈ calls.map fun c => if c.tui = some k then { c with tui := none } else c, c.Expired now := by
  intro c hc p hp
  obtain ⟨x, hx, rfl⟩ := List.mem_map.mp hc
  split at hp
  · exact h x hx p hp
  · exact h x hx p hp

theorem settle_pc (s : Daemon) (os : List PenguinSync.Obs) (k : Nat) : ((d.settle s os).tuis k).pc = (d.tuis k).pc := by
  have hhear : ∀ (t : Tui) (l : List PendingConfirmation), (t.hear l).pc = t.pc := by
    intro t l
    unfold Tui.hear
    split <;> rfl
  exact hhear _ _

theorem Timed.reply {call : Call} {os : List PenguinSync.Obs} (hi : Timed d) : Timed (d.reply call os) := by
  unfold Desktop.reply
  split
  · split
    · exact hi.setTui nofun hi.sent hi.calls
    · exact hi
  · exact hi

theorem setToken_now {s s' : Daemon} {j : Nat} {addrs : List SocketAddr} {os : List PenguinSync.Obs}
    (h : s.setToken cfg j addrs = some (s', os)) : s'.now = s.now := by
  unfold Daemon.setToken at h
  split at h
  · cases h
    rfl
  · cases h

theorem confirmPairing_now (s : Daemon) (hex : String) (accept : Bool) : (s.confirmPairing hex accept).1.now = s.now := by
  unfold Daemon.confirmPairing
  split
  · rfl
  · split <;> rfl

/-- A TUI that waits for `select` waits for no list of devices. -/
theorem handleKey_pc {t : Tui} {key : Key} {now : Time} (ht : t.pc = .select) : (t.handleKey key).pc ≠ .ticked now := by
  unfold Tui.handleKey
  split
  · cases key <;> simp [ht]
  · split
    · simp [ht]
    · cases key <;> simp [ht, Tui.off]

theorem Timed.step (hi : Timed d) (h : step cfg d a = some (d', os)) : Timed d' := by
  have hother : Call.Expired d.daemon.now ⟨none, none⟩ := fun _ hp => by cases hp
  have hcalled : ∀ k, Call.Expired d.daemon.now ⟨some k, none⟩ := fun _ _ hp => by cases hp
  have herase : ∀ {l : List Call} {i : Nat}, (∀ c ∈ l, c.Expired d.daemon.now) →
      ∀ c ∈ l.eraseIdx i, c.Expired d.daemon.now := fun hl c hc => hl c (List.mem_of_mem_eraseIdx hc)
  cases step_move h with
  | @daemon _ s os' _ _ hs =>
    exact hi.daemon (Daemon.now_mono hs) (fun k _ hk => (settle_pc s os' k).symm.trans hk) hi.sent hi.calls
  | asked random => exact hi.daemon (Nat.le_refl _) (fun _ _ h => h) hi.sent (expired_append hi.calls hother)
  | begun i random hcall =>
    have hexp := hi.sent _ (List.mem_of_getElem? hcall)
    exact hi.daemon (Nat.le_refl _) (fun _ _ h => h) (herase hi.sent) (expired_append hi.calls hexp)
  | @set j addrs call s os' hcall hs =>
    have hnow : d.daemon.now ≤ s.now := Nat.le_of_eq (setToken_now hs).symm
    exact (hi.daemon hnow (fun _ _ h => h) hi.sent (herase hi.calls)).reply
  | lost i _ => exact ⟨hi.ticked, herase hi.sent, hi.calls⟩
  | started k _ => exact hi.setTui (fun _ hn => by cases hn) hi.sent hi.calls
  | pressed k key hpc =>
    refine hi.setTui (fun now hn => absurd hn (handleKey_pc hpc)) ?_ hi.calls
    split
    · exact expired_append hi.sent (hcalled k)
    · exact hi.sent
  | heard k hpc _ => exact hi.setTui (fun now hn => by cases hpc.symm.trans hn) hi.sent hi.calls
  | ticked k _ =>
    refine hi.setTui (fun now hn => ?_) hi.sent hi.calls
    cases hn
    exact Nat.le_refl _
  | regenerates k hpc hp =>
    refine hi.setTui (fun _ hn => by cases hn) (expired_append hi.sent fun x hx => ?_) hi.calls
    cases hx
    exact Nat.le_trans (stale_expired hp) (hi.ticked k _ hpc)
  | leaves k _ _ | shown k _ | unrendered k _ => exact hi.setTui (fun _ hn => by cases hn) hi.sent hi.calls
  | failed k _ | exited k _ =>
    exact hi.setTui (fun _ hn => by cases hn) (expired_forget hi.sent) (expired_forget hi.calls)
  | @reached k hex accept _ =>
    have hnow : d.daemon.now ≤ (d.daemon.confirmPairing hex accept).1.now :=
      Nat.le_of_eq (confirmPairing_now _ _ _).symm
    exact (hi.daemon hnow (fun _ _ h => h) hi.sent hi.calls).setTui (fun _ hn => by cases hn)
      (fun c hc => (hi.sent c hc).mono hnow) fun c hc => (hi.calls c hc).mono hnow
  | unreached k _ => exact hi.setTui (fun _ hn => by cases hn) hi.sent hi.calls

/-! ## Every run -/

variable {file : Option PersistedState} {clipboard : Content}

theorem run_timed {C : List Obs → Desktop → Act → Prop} (h : Run (system cfg file clipboard) C tr d) : Timed d := by
  refine h.invariant (I := fun _ d => Timed d) (fun d h0 => ?_) (fun _ _ _ _ _ _ hi _ hs => hi.step hs)
  rw [h0]
  exact ⟨nofun, nofun, nofun⟩

/-! ## What it replaces -/

/-- A refresh replaces what the slot holds when its call sets the token. -/
theorem refreshed_step {t : Option PairingToken} {now : Time} (h : step cfg d a = some (d', os))
    (ho : .refreshed t now ∈ os) : ∃ j addrs call p, a = .setToken j addrs ∧ d.calls[j]? = some call ∧
      call.stale = some p ∧ t = d.daemon.currentToken ∧ now = d.daemon.now := by
  have hdaemon : ∀ l : List PenguinSync.Obs, Obs.refreshed t now ∉ l.map .daemon := by
    intro l hl
    obtain ⟨o, -, he⟩ := List.mem_map.mp hl
    cases he
  cases step_move h with
  | @set j addrs call s os' hcall hs =>
    rcases List.mem_append.mp ho with ho | ho
    · exact absurd ho (hdaemon _)
    · obtain ⟨p, hp, he⟩ := List.mem_map.mp ho
      cases he
      exact ⟨j, addrs, call, p, rfl, hcall, Option.mem_toList.mp hp, rfl, rfl⟩
  | daemon _ _ _ => exact absurd ho (hdaemon _)
  | reached k _ => exact absurd ho (hdaemon _)
  | _ => cases ho

/-- Where the slot holds no newer token than the code a refresh found stale, the
refresh replaces a token that the daemon would refuse. -/
theorem run_refresh_spares (h : Run (system cfg file clipboard) (fun _ d a => d.Untouched a) tr d) :
    ∀ t now, .refreshed (some t) now ∈ tr → t.redeemed = true ∨ t.isExpired now = true := by
  induction h with
  | init => nofun
  | @step tr d a d' os hr hc hstep ih =>
    intro t now ho
    rcases List.mem_append.mp ho with ho | ho
    · exact ih t now ho
    · obtain ⟨j, addrs, call, p, rfl, hcall, hp, ht, rfl⟩ := refreshed_step hstep ho
      rcases hc call p t hcall hp ht.symm with hred | hle
      · exact Or.inl hred
      · have hexp : p.issuedAt + tokenTtl ≤ d.daemon.now :=
          (run_timed hr).calls call (List.mem_of_getElem? hcall) p hp
        refine Or.inr (decide_eq_true ?_)
        exact Nat.le_sub_of_add_le (Nat.le_trans (Nat.add_comm .. ▸ Nat.add_le_add_right hle tokenTtl) hexp)

end

/-! ## Two clients -/

/-- A check that implies `Untouched`. -/
def untouched (d : Desktop) : Act → Bool
  | .setToken j _ =>
    match d.calls[j]?, d.daemon.currentToken with
    | some ⟨_, some p⟩, some t => t.redeemed || t.issuedAt ≤ p.issuedAt
    | _, _ => true
  | _ => true

theorem untouched_sound {d : Desktop} {a : Act} (h : d.untouched a = true) : d.Untouched a := by
  cases a with
  | setToken j addrs =>
    rintro ⟨tui, stale⟩ p t hcall hp ht
    cases hp
    simpa [untouched, hcall, ht] using h
  | _ => trivial

def shows : List Act :=
  [.start 0, .key 0 .p, .begin 0 (Bytes.fill tokenLen 7), .daemon (.openWindow 0), .setToken 0 [], .receive 0 true]

def refreshes (wait : Time) : List Act :=
  [.daemon (.advance wait), .tick 0, .listed 0, .begin 0 (Bytes.fill tokenLen 9), .daemon (.openWindow 0), .setToken 0 []]

open Daemon.Sample in
theorem alone_enabled : (exec (system cfg none empty) (fun _ => untouched) [] (new (.initial none empty))
    (shows ++ refreshes tokenTtl)).isSome = true := by
  decide +kernel

open Daemon.Sample in
theorem run_refresh_spares_alone :
    let r := (exec (system cfg none empty) (fun _ => untouched) [] (new (.initial none empty))
      (shows ++ refreshes tokenTtl)).get alone_enabled
    let t := PairingToken.issue (Bytes.fill tokenLen 7) 0
    .refreshed (some t) tokenTtl ∈ r.1 ∧ (t.redeemed = true ∨ t.isExpired tokenTtl = true) := by
  have hr := run_of_exec (fun _ _ _ h => untouched_sound h) rfl alone_enabled
  have ho : Obs.refreshed (some (PairingToken.issue (Bytes.fill tokenLen 7) 0)) tokenTtl ∈
      ((exec (system cfg none empty) (fun _ => untouched) [] (new (.initial none empty))
        (shows ++ refreshes tokenTtl)).get alone_enabled).1 := by
    decide +kernel
  exact ⟨ho, run_refresh_spares hr _ _ ho⟩

/-- Another client asks for a code half a minute after the TUI. -/
def shared : List Act :=
  shows ++ [.daemon (.advance (secs 30)), .daemon (.startPairing (Bytes.fill tokenLen 8)), .daemon (.openWindow 0),
    .setToken 0 []] ++ refreshes (secs 30)

open Daemon.Sample in
theorem shared_enabled : (exec (system cfg none empty) anyway [] (new (.initial none empty)) shared).isSome = true := by
  decide +kernel

open Daemon.Sample in
/-- The TUI's refresh throws away the other client's code, half a minute before it expires. -/
theorem shared_discards : ∃ tr d t now, Run (system cfg none empty) always tr d ∧ .refreshed (some t) now ∈ tr ∧
    t.redeemed = false ∧ t.isExpired now = false := by
  refine ⟨_, _, .issue (Bytes.fill tokenLen 8) (secs 30), tokenTtl, run_of_anyway rfl shared_enabled, ?_, rfl, ?_⟩
  · decide +kernel
  · decide +kernel

end Desktop

end Cli

end PenguinSync
