import PenguinSync.Android.Status

/-!
# What the notification shows

The service posts from its listener and from `onStartCommand`; each reads the
status first and posts what it made of it later. Where nothing comes in between,
the last post is the current one.
-/

namespace PenguinSync

open Lts Ffi

namespace Android

namespace App

variable {cfg : Config} {s s' : App} {a : Act} {tr os : List Obs} {q k : Nat}

def late : Option Callback → Bool
  | some (.service e) => reposts e
  | some .title | some (.post _) => true
  | _ => false

/-- A callback goes on only while no other run's is under way, and assigns the
status only while the main thread has none in hand. -/
def Unraced (s : App) : Act → Prop
  | .callback q => (∀ k < s.core.started, k ≠ q → s.callbacks k = none) ∧
      ∀ e status title, s.callbacks q = some (.assign e status) → s.main ≠ .repost title
  | _ => True

/-- What is in hand to be posted or assigned is current, and so is what was posted
once nothing is to come. -/
structure Posted (cfg : Config) (s : App) : Prop where
  repost : ∀ title, s.main = .repost title → title = s.connectionStatus.notificationTitle cfg
  post : ∀ q title, s.callbacks q = some (.post title) → title = s.connectionStatus.notificationTitle cfg
  assign : ∀ q e status, s.callbacks q = some (.assign e status) → status = s.connectionStatus.reduce e
  creating : s.main = .creating → 0 < s.starts
  shown : s.serviceListener = true → s.starts = 0 → (∀ title, s.main ≠ .repost title) →
    (∀ q, late (s.callbacks q) = false) →
    s.notification = none ∨ s.notification = some (s.connectionStatus.notificationTitle cfg)

/-- An event the service does not repost for leaves the title as it was. -/
theorem title_reduce {e : CoreEvent} (h : reposts e = false) (st : ConnectionStatus) :
    (st.reduce e).notificationTitle cfg = st.notificationTitle cfg := by
  cases e with
  | ponged rttMs => cases st <;> rfl
  | clipboardReceived text => rfl
  | _ => cases h

/-- A step of the Rust side at most begins a callback where there was none. -/
theorem core_called {b : Ffi.Act} {c : Core} {cos : List Ffi.Obs} (ha : s.allows b = true)
    (hb : s.core.step cfg.core b = some (c, cos)) (q : Nat) :
    (cos.foldl called { s with core := c }).callbacks q = s.callbacks q ∨
      s.callbacks q = none ∧ ∃ e, (cos.foldl called { s with core := c }).callbacks q = some (.write e) := by
  have hkept : Core.told q cos = [] → (cos.foldl called { s with core := c }).callbacks q = s.callbacks q :=
    foldl_called_untold
  cases Core.step_flow hb with
  | silent _ hos => exact Or.inl (hkept (hos q).2.2)
  | started _ _ hos => exact Or.inl (hkept (hos q).2.2)
  | ran k act r outs _ _ _ hos =>
    subst hos
    exact Or.inl (hkept (Core.told_out k q outs))
  | told k e r hfw _ _ _ hos =>
    subst hos
    by_cases hk : q = k
    · subst hk
      have hidle := idle_of_allows ha hfw
      rw [foldl_called_callbacks, Core.told_report]
      cases toCoreEvent e with
      | none => exact Or.inl rfl
      | some x => exact Or.inr ⟨hidle, x, rfl⟩
    · exact Or.inl (hkept (Core.told_report_of_ne hk e))

theorem Posted.core {b : Ffi.Act} {c : Core} {cos : List Ffi.Obs} (hi : Posted cfg s) (ha : s.allows b = true)
    (hb : s.core.step cfg.core b = some (c, cos)) : Posted cfg (cos.foldl called { s with core := c }) := by
  have hcalled := core_called ha hb
  rw [foldl_called]
  refine ⟨hi.repost, fun q title hq => ?_, fun q e status hq => ?_, hi.creating, fun hl hn hm hlate => ?_⟩
  · rcases hcalled q with hsame | ⟨-, e, hnew⟩
    · exact hi.post q title (hsame.symm.trans hq)
    · have hq' := hnew.symm.trans hq
      cases hq'
  · rcases hcalled q with hsame | ⟨-, e', hnew⟩
    · exact hi.assign q e status (hsame.symm.trans hq)
    · have hq' := hnew.symm.trans hq
      cases hq'
  · refine hi.shown hl hn hm fun q => ?_
    rcases hcalled q with hsame | ⟨hidle, -⟩
    · rw [← hsame]
      exact hlate q
    · rw [hidle]
      rfl

theorem Posted.turn (hi : Posted cfg s) (hh : Handled s) (hc : s.Unraced (.callback q)) (h : Turn cfg s q s' os) :
    Posted cfg s' := by
  obtain ⟨hothers, hmain⟩ := hc
  have halone : ∀ k, k ≠ q → s.callbacks k = none := by
    intro k hk
    by_contra hne
    exact hne (hothers k (hh.calling k hne) hk)
  have hpost : ∀ {t c k title}, t.callbacks = s.callbacks → (setCallback t q c).callbacks k = some (.post title) →
      c = some (.post title) := by
    intro t c k title ht hk
    by_cases hkq : k = q
    · subst hkq
      rw [setCallback_self] at hk
      exact hk
    · rw [setCallback_of_ne hkq, ht, halone k hkq] at hk
      cases hk
  have hassign : ∀ {t c k e status}, t.callbacks = s.callbacks →
      (setCallback t q c).callbacks k = some (.assign e status) → c = some (.assign e status) := by
    intro t c k e status ht hk
    by_cases hkq : k = q
    · subst hkq
      rw [setCallback_self] at hk
      exact hk
    · rw [setCallback_of_ne hkq, ht, halone k hkq] at hk
      cases hk
  have hlate : ∀ {x}, s.callbacks q = x → late x = false → ∀ k, late (s.callbacks k) = false := by
    intro x hq hx k
    by_cases hkq : k = q
    · subst hkq
      rw [hq]
      exact hx
    · rw [halone k hkq]
      rfl
  cases h with
  | wrote hq | skipped hq =>
    refine ⟨hi.repost, fun k title hk => ?_, fun k e status hk => ?_, hi.creating, fun hl hn hm _ => ?_⟩
    · have hk' := hpost rfl hk
      cases hk'
    · have hk' := hassign rfl hk
      cases hk'
    · exact hi.shown hl hn hm (hlate hq rfl)
  | reduced hq =>
    refine ⟨hi.repost, fun k title hk => ?_, fun k e status hk => ?_, hi.creating, fun hl hn hm _ => ?_⟩
    · have hk' := hpost rfl hk
      cases hk'
    · have hk' := hassign rfl hk
      cases hk'
      rfl
    · exact hi.shown hl hn hm (hlate hq rfl)
  | @assigned e status hq =>
    have hstatus := hi.assign q e status hq
    refine ⟨fun title ht => absurd ht (hmain e status title hq), fun k title hk => ?_, fun k e status hk => ?_, hi.creating,
      fun hl hn hm hl' => ?_⟩
    · have hk' := hpost rfl hk
      cases hk'
    · have hk' := hassign rfl hk
      cases hk'
    · have hquiet := hl' q
      rw [setCallback_self] at hquiet
      have htitle : status.notificationTitle cfg = s.connectionStatus.notificationTitle cfg := by
        rw [hstatus]
        exact title_reduce hquiet _
      show s.notification = none ∨ s.notification = some (status.notificationTitle cfg)
      rw [htitle]
      exact hi.shown hl hn hm (hlate hq rfl)
  | @served e hq =>
    refine ⟨hi.repost, fun k title hk => ?_, fun k e status hk => ?_, hi.creating, fun hl hn hm hl' => ?_⟩
    · have hk' := hpost rfl hk
      split at hk' <;> cases hk'
    · have hk' := hassign rfl hk
      split at hk' <;> cases hk'
    · refine hi.shown hl hn hm (hlate hq ?_)
      have hlistens : s.serviceListener = true := hl
      have hquiet := hl' q
      rw [setCallback_self, hlistens, Bool.true_and] at hquiet
      show reposts e = false
      cases hr : reposts e with
      | false => rfl
      | true =>
        rw [hr] at hquiet
        cases hquiet
  | titled hq =>
    refine ⟨hi.repost, fun k title hk => ?_, fun k e status hk => ?_, hi.creating, fun hl hn hm hl' => ?_⟩
    · have hk' := hpost rfl hk
      cases hk'
      rfl
    · have hk' := hassign rfl hk
      cases hk'
    · have hquiet := hl' q
      rw [setCallback_self] at hquiet
      cases hquiet
  | @posted title hq =>
    refine ⟨hi.repost, fun k title hk => ?_, fun k e status hk => ?_, hi.creating, fun _ _ _ _ => ?_⟩
    · have hk' := hpost rfl hk
      cases hk'
    · have hk' := hassign rfl hk
      cases hk'
    · exact Or.inr (congrArg some (hi.post q title hq))

theorem cancelPrevious_core (s : App) : ∃ core, s.cancelPrevious = { s with core } := by
  unfold cancelPrevious
  split
  · exact ⟨_, rfl⟩
  · exact ⟨s.core, rfl⟩

theorem Posted.step (hi : Posted cfg s) (hh : Handled s) (hc : s.Unraced a) (h : App.step cfg s a = some (s', os)) : Posted cfg s' := by
  have hidle : s.main = .idle → ∀ title, s.main ≠ .repost title := by
    intro hm title ht
    rw [hm] at ht
    cases ht
  cases a with
  | core b =>
    simp only [App.step, Option.ite_none_right_eq_some] at h
    obtain ⟨ha, h⟩ := h
    split at h
    · rename_i c cos hs
      cases h
      exact hi.core ha hs
    · cases h
  | callback q => exact hi.turn hh hc (callback_turn h)
  | startPairing =>
    simp only [App.step, Option.ite_none_right_eq_some, Option.some.injEq, Prod.mk.injEq] at h
    obtain ⟨hm, rfl, -⟩ := h
    obtain ⟨core, hprev⟩ := cancelPrevious_core s
    rw [hprev]
    exact ⟨fun title ht => (by cases ht), hi.post, hi.assign, fun ht => (by cases ht),
      fun hl hn _ hlate => hi.shown hl hn (hidle hm) hlate⟩
  | pair decoded endpoint =>
    simp only [App.step, Option.ite_none_right_eq_some] at h
    obtain ⟨hm, h⟩ := h
    split at h
    · cases h
      exact ⟨fun title ht => (by cases ht), hi.post, hi.assign, fun ht => (by cases ht),
        fun _ hn => absurd hn (Nat.succ_ne_zero _)⟩
    · cases h
      refine ⟨fun title ht => (by cases ht), hi.post, hi.assign, fun ht => (by cases ht),
        fun hl hn _ hlate => hi.shown hl hn (fun title ht => ?_) hlate⟩
      rw [hm] at ht
      cases ht
  | sendClipboard =>
    simp only [App.step, Option.ite_none_right_eq_some, Option.some.injEq] at h
    obtain ⟨-, h⟩ := h
    unfold sendClipboardFromFocusedContext at h
    split at h
    · cases h
      exact hi
    · cases h
      exact ⟨hi.repost, hi.post, hi.assign, hi.creating, hi.shown⟩
  | copy clip =>
    cases h
    exact ⟨hi.repost, hi.post, hi.assign, hi.creating, hi.shown⟩
  | restore =>
    cases h
    exact ⟨hi.repost, hi.post, hi.assign, fun _ => Nat.succ_pos _, fun _ hn => absurd hn (Nat.succ_ne_zero _)⟩
  | onCreate =>
    simp only [App.step, Option.ite_none_right_eq_some, Option.some.injEq, Prod.mk.injEq] at h
    obtain ⟨⟨-, hstarts, hl⟩, rfl, -⟩ := h
    refine ⟨fun title ht => (by cases ht), hi.post, hi.assign, fun _ => hstarts, fun hl' => ?_⟩
    rw [show s.serviceListener = true from hl'] at hl
    cases hl
  | listen =>
    simp only [App.step, Option.ite_none_right_eq_some, Option.some.injEq, Prod.mk.injEq] at h
    obtain ⟨hm, rfl, -⟩ := h
    exact ⟨fun title ht => (by cases ht), hi.post, hi.assign, fun ht => (by cases ht),
      fun _ hn => absurd hn (Nat.ne_of_gt (hi.creating hm))⟩
  | onStartCommand =>
    simp only [App.step, Option.ite_none_right_eq_some, Option.some.injEq, Prod.mk.injEq] at h
    obtain ⟨-, rfl, -⟩ := h
    refine ⟨fun title ht => ?_, hi.post, hi.assign, fun ht => (by cases ht), fun _ _ hm => absurd rfl (hm _)⟩
    cases ht
    rfl
  | notify =>
    simp only [App.step] at h
    split at h
    · rename_i title hm
      cases h
      exact ⟨fun title ht => (by cases ht), hi.post, hi.assign, fun ht => (by cases ht),
        fun _ _ _ _ => Or.inr (congrArg some (hi.repost title hm))⟩
    · cases h
  | onDestroy =>
    simp only [App.step, Option.ite_none_right_eq_some, Option.some.injEq, Prod.mk.injEq] at h
    obtain ⟨-, rfl, -⟩ := h
    exact ⟨hi.repost, hi.post, hi.assign, hi.creating, fun hl => (by cases hl)⟩
  | dismiss =>
    cases h
    exact ⟨hi.repost, hi.post, hi.assign, hi.creating, fun _ _ _ _ => Or.inl rfl⟩

theorem run_posted (h : Run (system cfg) (fun _ s a => s.Unraced a) tr s) : Posted cfg s := by
  induction h with
  | init h0 =>
    obtain ⟨peers, tmp, clipboard, rfl⟩ := h0
    exact ⟨fun title ht => (by cases ht), fun q title hq => (by cases hq), fun q e status hq => (by cases hq),
      fun ht => (by cases ht), fun hl => (by cases hl)⟩
  | step hr hc hs ih => exact ih.step (run_core hr).2 hc hs

def Served (s : App) : Prop := s.serviceListener = true ∧ s.starts = 0 ∧ ∀ title, s.main ≠ .repost title

theorem offers_iff (st : ConnectionStatus) :
    (st.notificationTitle cfg).2 = true ↔ ∃ name deviceId rtt, st = .connected name deviceId rtt := by
  cases st with
  | connected name deviceId rtt => exact ⟨fun _ => ⟨name, deviceId, rtt, rfl⟩, fun _ => rfl⟩
  | _ => simp [ConnectionStatus.notificationTitle]

/-- In such a run, once the app is quiet, the notification, if it is there, is the
one for the status, and it offers to send the clipboard just where a session is up. -/
theorem run_notification_current (h : Run (system cfg) (fun tr s a => OneAtATime cfg tr s a ∧ s.Unraced a) tr s)
    (hq : s.Quiet) (hs : s.Served) {title : Title} (hn : s.notification = some title) :
    title = s.connectionStatus.notificationTitle cfg ∧ (title.2 = true ↔ ∃ q h, s.Live q h) := by
  obtain ⟨hl, hstarts, hmain⟩ := hs
  have hposted := run_posted (h.mono fun _ _ _ h => h.2)
  have hquiet : ∀ q, late (s.callbacks q) = false := by
    intro q
    rw [(hq q).2]
    rfl
  have htitle : title = s.connectionStatus.notificationTitle cfg := by
    rcases hposted.shown hl hstarts hmain hquiet with hnone | hsome
    · rw [hnone] at hn
      cases hn
    · exact Option.some.inj (hn.symm.trans hsome)
  obtain ⟨hconnected, hlive⟩ := run_connected (h.mono fun _ _ _ h => h.1) hq
  refine ⟨htitle, ?_⟩
  rw [htitle, offers_iff]
  constructor
  · rintro ⟨name, deviceId, rtt, hst⟩
    obtain ⟨q, n, hup, -⟩ := hconnected name deviceId rtt hst
    exact ⟨q, n, hup⟩
  · rintro ⟨q, n, hup⟩
    obtain ⟨name, deviceId, rtt, hst, -⟩ := hlive q n hup
    exact ⟨name, deviceId, rtt, hst⟩

def announced : List Act :=
  [.startPairing, .pair (.ok desk) (.ok ()), .onCreate, .listen, .onStartCommand, .notify] ++ greeted.drop 2 ++
    [.callback 0, .callback 0]

/-- A check that implies `OneAtATime` and `Unraced`. -/
def clear (s : App) : Act → Bool
  | .callback q => (∀ k < s.core.started, k ≠ q → s.callbacks k = none) && s.main = .idle
  | a => s.once a

theorem clear_sound (h : s.clear a = true) : OneAtATime cfg tr s a ∧ s.Unraced a := by
  unfold clear at h
  split at h
  · rename_i q
    simp only [Bool.and_eq_true, decide_eq_true_eq] at h
    refine ⟨trivial, h.1, fun e status title _ ht => ?_⟩
    rw [h.2] at ht
    cases ht
  · rename_i hne
    refine ⟨once_sound h, ?_⟩
    cases a with
    | callback q => exact absurd rfl (hne q)
    | _ => trivial

theorem announced_enabled : (exec (system pocket) (fun _ => clear) [] (new none none none) announced).isSome = true := by
  decide +kernel

theorem run_notification_current_announced :
    let s := ((exec (system pocket) (fun _ => clear) [] (new none none none) announced).get announced_enabled).2
    s.notification = some ("Connected to desk", true) ∧ ∃ q h, s.Live q h := by
  have hr := run_of_exec (M := system pocket) (C := fun tr s a => OneAtATime pocket tr s a ∧ s.Unraced a)
    (fun _ _ _ h => clear_sound h) ⟨none, none, none, rfl⟩ announced_enabled
  obtain ⟨hcore, hh⟩ := run_core hr
  have hn : ((exec (system pocket) (fun _ => clear) [] (new none none none) announced).get announced_enabled).2.notification =
      some ("Connected to desk", true) := by
    decide +kernel
  have hcurrent := run_notification_current hr (quiet_of (Core.run_started hcore) hh (by decide +kernel))
    ⟨by decide +kernel, by decide +kernel, fun title ht => ?_⟩ hn
  · exact ⟨hn, hcurrent.2.mp rfl⟩
  · have hidle : ((exec (system pocket) (fun _ => clear) [] (new none none none) announced).get announced_enabled).2.main =
        .idle := by
      decide +kernel
    rw [hidle] at ht
    cases ht

end App

end Android

end PenguinSync
