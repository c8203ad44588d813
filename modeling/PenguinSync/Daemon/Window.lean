import PenguinSync.Daemon.Calls

/-!
# The pairing window and the current token

`start_pairing` opens the window and sets the token in two steps, and a
confirmed pairing closes the window whatever the token is by then. The window
covers a token as long as nobody shortens or closes it while one that can still
be redeemed, or is about to be set, depends on it.
-/

namespace PenguinSync

open Lts

namespace Daemon

/-- When the tokens were issued that can be redeemed, now or once their call has set them. -/
def issued (s : Daemon) : List Time :=
  ((s.currentToken.toList.filter (!·.redeemed)).map (·.issuedAt)) ++
    (s.startPairings.filter (·.opened)).map (·.now)

/-- The window reaches as far as a token issued at `t` lasts. -/
def covers (s : Daemon) (t : Time) : Prop := ∃ deadline, s.trust.pairingDeadline = some deadline ∧ t + tokenTtl ≤ deadline

/-- Nobody opens the window for less time than a later token needs, or closes it under one that has not expired. -/
def windowKept (s : Daemon) : Act → Bool
  | .openWindow k =>
    match s.startPairings[k]? with
    | some ⟨_, now, false⟩ => s.issued.all fun t => t ≤ now ∨ tokenTtl ≤ s.now - t
    | _ => true
  | .orchestrate .. =>
    match s.orchestrator with
    | .handshake _ .closeWindow => s.issued.all fun t => tokenTtl ≤ s.now - t
    | _ => true
  | _ => true

def WindowInv (s : Daemon) : Prop := ∀ t ∈ s.issued, s.now - t < tokenTtl → s.covers t

section
variable {cfg : Config} {s s' : Daemon} {tr os : List Obs} {a : Act} {t : Time}

theorem mem_issued : t ∈ s.issued ↔ (∃ token, s.currentToken = some token ∧ token.redeemed = false ∧ token.issuedAt = t) ∨
    ∃ c ∈ s.startPairings, c.opened = true ∧ c.now = t := by
  simp [issued, and_assoc]

/-! ## One step -/

theorem WindowInv.mono (hi : WindowInv s) (hu : ∀ t ∈ s'.issued, t ∈ s.issued)
    (hd : s'.trust.pairingDeadline = s.trust.pairingDeadline) (hn : s.now ≤ s'.now) : WindowInv s' := by
  intro t ht hl
  have hb : s.now - t < tokenTtl := Nat.lt_of_le_of_lt (Nat.sub_le_sub_right hn t) hl
  obtain ⟨deadline, hdl, hle⟩ := hi t (hu t ht) hb
  exact ⟨deadline, hd.trans hdl, hle⟩

theorem WindowInv.same (hi : WindowInv s) (ht : s'.currentToken = s.currentToken)
    (hp : s'.startPairings = s.startPairings) (hd : s'.trust.pairingDeadline = s.trust.pairingDeadline)
    (hn : s'.now = s.now) : WindowInv s' := by
  refine hi.mono (fun t hm => ?_) hd (Nat.le_of_eq hn.symm)
  unfold issued at hm ⊢
  rw [ht, hp] at hm
  exact hm

/-- The call's own token is covered, and the others are by what the condition says. -/
theorem WindowInv.openWindow {k : Nat} (hc : windowKept s (.openWindow k) = true)
    (h : s.openWindow k = some (s', os)) : WindowInv s' := by
  unfold Daemon.openWindow at h
  split at h
  · rename_i random now hk
    cases h
    intro t ht hl
    refine ⟨now + tokenTtl, rfl, Nat.add_le_add_right ?_ _⟩
    have hall : ∀ x ∈ s.issued, x ≤ now ∨ tokenTtl ≤ s.now - x := by
      simpa [windowKept, hk] using hc
    have hin : t ∈ s.issued ∨ t = now := by
      rcases mem_issued.mp ht with htok | ⟨c, hcm, hco, rfl⟩
      · exact Or.inl (mem_issued.mpr (Or.inl htok))
      · rcases List.mem_or_eq_of_mem_set hcm with hcm | rfl
        · exact Or.inl (mem_issued.mpr (Or.inr ⟨c, hcm, hco, rfl⟩))
        · exact Or.inr rfl
    rcases hin with hin | rfl
    · rcases hall t hin with hle | hexp
      · exact hle
      · exact absurd hl (Nat.not_lt.mpr hexp)
    · exact Nat.le_refl _
  · cases h

theorem WindowInv.setToken {k : Nat} {addrs : List SocketAddr} (hi : WindowInv s)
    (h : s.setToken cfg k addrs = some (s', os)) : WindowInv s' := by
  unfold Daemon.setToken at h
  split at h
  · rename_i random now hk
    cases h
    refine hi.mono (fun t ht => ?_) rfl (Nat.le_refl _)
    rcases mem_issued.mp ht with ⟨token, htok, -, rfl⟩ | ⟨c, hcm, hco, rfl⟩
    · cases htok
      exact mem_issued.mpr (Or.inr ⟨_, List.mem_of_getElem? hk, rfl, rfl⟩)
    · exact mem_issued.mpr (Or.inr ⟨c, List.mem_of_mem_eraseIdx hcm, hco, rfl⟩)
  · cases h

theorem WindowInv.handshake {h : Handling} {pc : HandshakePc} {ok : Bool} {target : DeviceId} (hi : WindowInv s)
    (ho : s.orchestrator = .handshake h pc) (hc : windowKept s (.orchestrate ok target) = true)
    (hs : s.handshakeStep h ok pc = some (s', os)) : WindowInv s' := by
  cases handshakeStep_move hs with
  | redeems presented token token' ht hr =>
    refine hi.mono (fun t hm => ?_) rfl (Nat.le_refl _)
    rcases mem_issued.mp hm with ⟨x, hx, hu, -⟩ | hm
    · cases hx
      rw [(PairingToken.redeem_ok hr).2.2.2] at hu
      cases hu
    · exact mem_issued.mpr (Or.inr hm)
  | closesWindow =>
    intro t ht hl
    have hall : ∀ x ∈ s.issued, tokenTtl ≤ s.now - x := by
      simpa [windowKept, ho] using hc
    exact absurd hl (Nat.not_lt.mpr (hall t ht))
  | persists =>
    rw [persistState_eq]
    exact hi.same rfl rfl rfl rfl
  | _ => exact hi.same rfl rfl rfl rfl

theorem WindowInv.step (hi : WindowInv s) (hc : windowKept s a = true) (h : step cfg s a = some (s', os)) :
    WindowInv s' := by
  cases ha : a.task with
  | net =>
    have hn : s.now ≤ s'.now := now_mono h
    obtain ⟨⟨_, _, _, rfl⟩, -⟩ := net_frame h ha
    exact hi.mono (fun _ hm => hm) rfl hn
  | clipboard =>
    obtain ⟨⟨_, _, _, _, _, _, rfl⟩, -, -⟩ := clipboard_frame h ha
    exact hi.same rfl rfl rfl rfl
  | bus =>
    cases a with
    | startPairing random =>
      cases h
      refine hi.mono (fun t hm => ?_) rfl (Nat.le_refl _)
      rcases mem_issued.mp hm with hm | ⟨c, hcm, hco, rfl⟩
      · exact mem_issued.mpr (Or.inl hm)
      · rcases List.mem_append.mp hcm with hcm | hcm
        · exact mem_issued.mpr (Or.inr ⟨c, hcm, hco, rfl⟩)
        · rw [List.mem_singleton.mp hcm] at hco
          cases hco
    | openWindow k => exact .openWindow hc h
    | setToken k addrs => exact hi.setToken h
    | confirmPairing hex accept =>
      simp only [Daemon.step, confirmPairing] at h
      split at h
      · cases h
        exact hi
      · split at h
        · cases h
          exact hi
        · cases h
          exact hi.same rfl rfl rfl rfl
    | unpair hex =>
      simp only [Daemon.step, unpair] at h
      split at h
      · cases h
        exact hi
      · cases h
        exact hi.same rfl rfl rfl rfl
    | unpairStep k ok =>
      simp only [Daemon.step, unpairStep, persistState_eq] at h
      split at h
      · cases h
      iterate 4
        · cases h
          exact hi.same rfl rfl rfl rfl
    | restore =>
      obtain ⟨⟨_, _, rfl⟩, -⟩ := restore_frame h
      exact hi.same rfl rfl rfl rfl
    | _ => cases ha
  | orchestrator =>
    cases a with
    | orchestrate ok target =>
      cases orchestrate_turn h with
      | taken i e rest _ _ hd =>
        obtain ⟨⟨_, _, _, rfl⟩, -⟩ := dispatch_frame hd
        exact hi.same rfl rfl rfl rfl
      | handshake hh pc ho hs => exact hi.handshake ho hc hs
      | received r pc _ hr =>
        obtain ⟨⟨_, _, _, _, _, rfl, -⟩, -, -⟩ := receivedStep_frame hr
        exact hi.same rfl rfl rfl rfl
      | closed id pc _ hcl =>
        subst hcl
        cases pc <;> exact hi.same rfl rfl rfl rfl
    | _ => cases ha

/-! ## Every run -/

variable {file : Option PersistedState} {clipboard : Content}

theorem run_window (h : Run (system cfg file clipboard) (fun _ s a => windowKept s a = true) tr s) : WindowInv s := by
  refine h.invariant (I := fun _ s => WindowInv s) (fun s h0 => ?_) (fun _ _ _ _ _ _ hi hc hs => hi.step hc hs)
  rw [h0]
  intro t ht
  simp [mem_issued, initial] at ht

/-- While the current token can be redeemed the window is open, so TLS admits whoever scans its code. -/
theorem run_token_window {token : PairingToken}
    (h : Run (system cfg file clipboard) (fun _ s a => windowKept s a = true) tr s)
    (ht : s.currentToken = some token) (hr : token.redeemed = false) (he : token.isExpired s.now = false) :
    s.trust.pairingOpen s.now = true ∧ ∀ spki, s.trust.check cfg.crypto spki s.now = true := by
  have hl : s.now - token.issuedAt < tokenTtl := Nat.not_le.mp (of_decide_eq_false he)
  obtain ⟨deadline, hd, hle⟩ := run_window h _ (mem_issued.mpr (Or.inl ⟨token, ht, hr, rfl⟩)) hl
  have hlt : s.now < deadline := Nat.lt_of_lt_of_le (lt_add_of_tsub_lt_left hl) hle
  have ho : s.trust.pairingOpen s.now = true := by
    unfold TrustStore.pairingOpen
    rw [hd]
    exact decide_eq_true hlt
  refine ⟨ho, fun spki => ?_⟩
  unfold TrustStore.check
  rw [ho, Bool.or_true]

end

/-- A second `start_pairing` while the first one's pairing waits for its confirmation. -/
def Sample.overlapped : List Act :=
  Sample.mint ++ Sample.connect 0 (Sample.addr 2) Sample.phoneKey ++
    Sample.greet 0 Sample.phone (some Sample.token) ++ Sample.turns 5 ++
    [.startPairing (Bytes.fill tokenLen 8), .openWindow 0, .setToken 0 [], .confirmPairing (toHex Sample.phone) true] ++
    Sample.turns 3

open Sample in
theorem overlapped_enabled :
    (exec (system cfg none empty) anyway [] (initial none empty) overlapped).isSome = true := by
  decide +kernel

open Sample in
/-- The confirmation of the first pairing closes the second one's window. -/
theorem overlapped_refused : ∃ tr s, Run (system cfg none empty) always tr s ∧
    s.currentToken = some (.issue (Bytes.fill tokenLen 8) 0) ∧ s.now = 0 ∧ s.startPairings.length = 0 ∧
    s.trust.pairingOpen s.now = false ∧ s.trust.check crypto tabletKey s.now = false := by
  refine ⟨_, _, run_of_anyway rfl overlapped_enabled, ?_⟩
  decide +kernel

open Sample in
theorem minted_enabled : (exec (system cfg none empty) (fun _ s a => windowKept s a) [] (initial none empty)
    (pair 0 (addr 2) phoneKey ++ mint)).isSome = true := by
  decide +kernel

open Sample in
theorem run_token_window_minted :
    let r := (exec (system cfg none empty) (fun _ s a => windowKept s a) [] (initial none empty)
      (pair 0 (addr 2) phoneKey ++ mint)).get minted_enabled
    r.2.trust.check crypto tabletKey r.2.now = true := by
  have ht : ((exec (system cfg none empty) (fun _ s a => windowKept s a) [] (initial none empty)
      (pair 0 (addr 2) phoneKey ++ mint)).get minted_enabled).2.currentToken = some (.issue token 0) := rfl
  exact (run_token_window (run_of_exec (fun _ _ _ h => h) rfl minted_enabled) ht rfl (by decide +kernel)).2 tabletKey

end Daemon

end PenguinSync
