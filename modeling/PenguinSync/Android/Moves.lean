import PenguinSync.Ffi.Told
import PenguinSync.Android.App

/-!
# What the app does with the events it is told

The app's calls and the Rust side's steps are steps of the core, so what holds of
every core holds of the app's. A clip that was told is written to the clipboard by
the callback it was told in.
-/

namespace PenguinSync

open Lts Ffi

namespace Android

def Obs.core? : Obs → Option Ffi.Obs
  | .core o => some o
  | _ => none

def Obs.wrote? (q : Nat) : Obs → Option String
  | .wrote k text => if k = q then some text else none
  | _ => none

def text? : CoreEvent → Option String
  | .clipboardReceived text => some text
  | _ => none

namespace App

def coreTrace (tr : List Obs) : List Ffi.Obs := tr.filterMap Obs.core?

def written (q : Nat) (tr : List Obs) : List String := tr.filterMap (Obs.wrote? q)

def unwritten : Option Callback → List String
  | some (.write e) => (text? e).toList
  | _ => []

variable {cfg : Config} {s s' : App} {a : Act} {tr os : List Obs} {q k : Nat} {cos : List Ffi.Obs}

theorem coreTrace_append : coreTrace (tr ++ os) = coreTrace tr ++ coreTrace os := List.filterMap_append

theorem written_append : written q (tr ++ os) = written q tr ++ written q os := List.filterMap_append

theorem coreTrace_map (cos : List Ffi.Obs) : coreTrace (cos.map .core) = cos := by
  unfold coreTrace
  rw [List.filterMap_map]
  exact List.filterMap_some

theorem written_map (q : Nat) (cos : List Ffi.Obs) : written q (cos.map .core) = [] := by
  unfold written
  rw [List.filterMap_map, List.filterMap_eq_nil_iff]
  intro o _
  rfl

/-! ## The calls of a forwarder -/

/-- A call changes nothing but the callbacks. -/
theorem foldl_called (cos : List Ffi.Obs) (s : App) :
    cos.foldl called s = { s with callbacks := (cos.foldl called s).callbacks } := by
  induction cos generalizing s with
  | nil => rfl
  | cons o cos ih =>
    rw [List.foldl_cons, ih]
    cases o with
    | listener k e => rfl
    | _ => rfl

theorem foldl_called_callbacks (cos : List Ffi.Obs) (s : App) (q : Nat) :
    (cos.foldl called s).callbacks q =
      (Core.told q cos).foldl (fun _ e => some (.write e)) (s.callbacks q) := by
  induction cos generalizing s with
  | nil => rfl
  | cons o cos ih =>
    rw [List.foldl_cons, ih]
    cases o with
    | listener k e =>
      by_cases hk : q = k
      · subst hk
        simp [Core.told, Obs.told?, called, setCallback]
      · simp [Core.told, Obs.told?, called, setCallback, hk, Ne.symm hk]
    | _ => rfl

theorem foldl_called_untold (hos : Core.told q cos = []) : (cos.foldl called s).callbacks q = s.callbacks q := by
  rw [foldl_called_callbacks, hos]
  rfl

/-! ## The steps of the app -/

/-- `aside` is a step of the main thread, the user or the system that neither the
core nor a callback has a part in. -/
inductive Move (cfg : Config) (s : App) : Act → App → List Obs → Prop
  | core {a : Ffi.Act} {c : Core} {cos : List Ffi.Obs} : s.allows a = true → s.core.step cfg.core a = some (c, cos) →
      Move cfg s (.core a) (cos.foldl called { s with core := c }) (cos.map .core)
  | callback {q : Nat} {s' : App} {os : List Obs} : s.callback cfg q = some (s', os) → Move cfg s (.callback q) s' os
  | began : s.main = .idle → Move cfg s .startPairing { s.cancelPrevious with main := .pairing } []
  | paired {decoded : Except String QrPayload} {endpoint : Except String Unit} {q : Nat} : s.main = .pairing →
      (s.core.pair cfg.core decoded endpoint).2 = .ok q →
      Move cfg s (.pair decoded endpoint)
        { s with core := (s.core.pair cfg.core decoded endpoint).1, connectionHandle := some q, starts := s.starts + 1,
                 main := .idle } [.core (.paired (.ok q))]
  | refused {decoded : Except String QrPayload} {endpoint : Except String Unit} {e : CoreError} : s.main = .pairing →
      (s.core.pair cfg.core decoded endpoint).2 = .error e →
      Move cfg s (.pair decoded endpoint) { s with core := (s.core.pair cfg.core decoded endpoint).1, main := .idle }
        [.core (.paired (.error e))]
  | tapped {text : String} : s.main = .idle → s.clipText cfg = some text →
      Move cfg s .sendClipboard { s with core := (s.core.sendClipboard cfg.core text).1 }
        [.core (.returned (s.core.sendClipboard cfg.core text).2), .sent (.of (s.core.sendClipboard cfg.core text).2)]
  | aside {a : Act} {clipboard : Option PrimaryClip} {serviceListener : Bool} {starts : Nat} {notification : Option Title}
      {main : Main} {os : List Obs} : (main = .pairing ↔ s.main = .pairing) → coreTrace os = [] →
      (∀ q, written q os = []) →
      Move cfg s a { s with clipboard, serviceListener, starts, notification, main } os

theorem send_move (hm : s.main = .idle) :
    Move cfg s .sendClipboard (s.sendClipboardFromFocusedContext cfg).1 (s.sendClipboardFromFocusedContext cfg).2 := by
  unfold sendClipboardFromFocusedContext
  cases ht : s.clipText cfg with
  | none => exact .aside Iff.rfl rfl (fun _ => rfl)
  | some text => exact .tapped hm ht

theorem step_move (h : step cfg s a = some (s', os)) : Move cfg s a s' os := by
  cases a with
  | core a =>
    simp only [step, Option.ite_none_right_eq_some] at h
    obtain ⟨ha, h⟩ := h
    split at h
    · rename_i c cos hs
      cases h
      exact .core ha hs
    · cases h
  | callback q => exact .callback h
  | startPairing =>
    simp only [step, Option.ite_none_right_eq_some, Option.some.injEq, Prod.mk.injEq] at h
    obtain ⟨hm, rfl, rfl⟩ := h
    exact .began hm
  | pair decoded endpoint =>
    simp only [step, Option.ite_none_right_eq_some] at h
    obtain ⟨hm, h⟩ := h
    split at h
    · rename_i q hq
      cases h
      exact .paired hm hq
    · rename_i e he
      cases h
      exact .refused hm he
  | sendClipboard =>
    simp only [step, Option.ite_none_right_eq_some, Option.some.injEq] at h
    obtain ⟨hm, h⟩ := h
    have hmove : Move cfg s .sendClipboard _ _ := send_move hm
    rw [h] at hmove
    exact hmove
  | copy clip =>
    cases h
    exact .aside Iff.rfl rfl (fun _ => rfl)
  | restore =>
    cases h
    exact .aside Iff.rfl rfl (fun _ => rfl)
  | onCreate =>
    simp only [step, Option.ite_none_right_eq_some, Option.some.injEq, Prod.mk.injEq] at h
    obtain ⟨⟨hm, -⟩, rfl, rfl⟩ := h
    exact .aside (by simp [hm]) rfl (fun _ => rfl)
  | listen =>
    simp only [step, Option.ite_none_right_eq_some, Option.some.injEq, Prod.mk.injEq] at h
    obtain ⟨hm, rfl, rfl⟩ := h
    exact .aside (by simp [hm]) rfl (fun _ => rfl)
  | onStartCommand =>
    simp only [step, Option.ite_none_right_eq_some, Option.some.injEq, Prod.mk.injEq] at h
    obtain ⟨⟨hm, -⟩, rfl, rfl⟩ := h
    exact .aside (by simp [hm]) rfl (fun _ => rfl)
  | notify =>
    simp only [step] at h
    split at h
    · rename_i title hm
      cases h
      exact .aside (by simp [hm]) rfl (fun _ => rfl)
    · cases h
  | onDestroy =>
    simp only [step, Option.ite_none_right_eq_some, Option.some.injEq, Prod.mk.injEq] at h
    obtain ⟨-, rfl, rfl⟩ := h
    exact .aside Iff.rfl rfl (fun _ => rfl)
  | dismiss =>
    cases h
    exact .aside Iff.rfl rfl (fun _ => rfl)

inductive Turn (cfg : Config) (s : App) (q : Nat) : App → List Obs → Prop
  | wrote {text : String} : s.callbacks q = some (.write (.clipboardReceived text)) →
      Turn cfg s q ({ s with clipboard := some (newPlainText text) }.setCallback q (some (.reduce (.clipboardReceived text))))
        [.wrote q text]
  | skipped {e : CoreEvent} : s.callbacks q = some (.write e) → text? e = none →
      Turn cfg s q (s.setCallback q (some (.reduce e))) []
  | reduced {e : CoreEvent} : s.callbacks q = some (.reduce e) →
      Turn cfg s q (s.setCallback q (some (.assign e (s.connectionStatus.reduce e)))) []
  | assigned {e : CoreEvent} {status : ConnectionStatus} : s.callbacks q = some (.assign e status) →
      Turn cfg s q ({ s with connectionStatus := status }.setCallback q (some (.service e))) []
  | served {e : CoreEvent} : s.callbacks q = some (.service e) →
      Turn cfg s q (s.setCallback q (if s.serviceListener && reposts e then some .title else none)) []
  | titled : s.callbacks q = some .title →
      Turn cfg s q (s.setCallback q (some (.post (s.connectionStatus.notificationTitle cfg)))) []
  | posted {title : Title} : s.callbacks q = some (.post title) →
      Turn cfg s q ({ s with notification := some title }.setCallback q none) []

theorem callback_turn (h : s.callback cfg q = some (s', os)) : Turn cfg s q s' os := by
  unfold callback at h
  split at h
  · rename_i text hc
    cases h
    exact .wrote hc
  · rename_i e hne hc
    cases h
    refine .skipped hc ?_
    cases e with
    | clipboardReceived text => exact absurd rfl (hne text)
    | _ => rfl
  · rename_i e hc
    cases h
    exact .reduced hc
  · rename_i e status hc
    cases h
    exact .assigned hc
  · rename_i e hc
    cases h
    exact .served hc
  · rename_i hc
    cases h
    exact .titled hc
  · rename_i title hc
    cases h
    exact .posted hc
  · cases h

/-! ## The core under the app -/

section
variable {c c' : Core} {b : Ffi.Act} {decoded : Except String QrPayload} {endpoint : Except String Unit}

theorem pair_ok (h : (c.pair cfg.core decoded endpoint).2 = .ok q) :
    q = c.started ∧ ∃ payload trust, (c.pair cfg.core decoded endpoint).1 =
      { c.setRun c.started (.start cfg.core payload) with trust, started := c.started + 1 } := by
  have hp : ∀ o, c.pair cfg.core decoded endpoint = o → o.2 = .ok q → q = c.started ∧ ∃ payload trust, o.1 =
      { c.setRun c.started (.start cfg.core payload) with trust, started := c.started + 1 } := by
    intro o ho hq
    unfold Core.pair at ho
    split at ho
    · subst ho
      cases hq
    · split at ho
      · subst ho
        cases hq
      · split at ho
        · subst ho
          cases hq
        · split at ho
          · subst ho
            cases hq
          · subst ho
            cases hq
            exact ⟨rfl, _, _, rfl⟩
  exact hp _ rfl h

theorem pair_error {e : CoreError} (h : (c.pair cfg.core decoded endpoint).2 = .error e) :
    ∃ trust, (c.pair cfg.core decoded endpoint).1 = { c with trust } := by
  have hp : ∀ o, c.pair cfg.core decoded endpoint = o → o.2 = .error e → ∃ trust, o.1 = { c with trust } := by
    intro o ho he
    unfold Core.pair at ho
    split at ho
    · subst ho
      exact ⟨_, rfl⟩
    · split at ho
      · subst ho
        exact ⟨_, rfl⟩
      · split at ho
        · subst ho
          exact ⟨_, rfl⟩
        · split at ho
          · subst ho
            exact ⟨_, rfl⟩
          · subst ho
            cases he
  exact hp _ rfl h

/-- Only `pair` starts a run and only `cancel` cancels one. -/
theorem core_frame (hs : ∀ k, (c.runs k).Sound) (hp : ∀ d e, b ≠ .pair d e) (hc : ∀ k, b ≠ .cancel k)
    (h : Core.step cfg.core c b = some (c', cos)) :
    c'.started = c.started ∧ ∀ k, (c'.runs k).cancelled = (c.runs k).cancelled := by
  have hset : ∀ {q r}, r.cancelled = (c.runs q).cancelled → ∀ k, (Function.update c.runs q r k).cancelled =
      (c.runs k).cancelled := by
    intro q r hr k
    by_cases hk : k = q
    · subst hk
      rw [Function.update_self, hr]
    · rw [Function.update_of_ne hk]
  cases Core.step_move h with
  | declined => exact ⟨rfl, fun _ => rfl⟩
  | paired => exact absurd rfl (hp _ _)
  | cancelled => exact absurd rfl (hc _)
  | @ran q a r outs hr =>
    obtain ⟨hm, -⟩ := PairRun.step_move (hs q).listening hr
    exact ⟨rfl, hset hm.frame.1⟩
  | handled => exact ⟨rfl, hset rfl⟩
  | exited => exact ⟨rfl, hset rfl⟩
  | persists => exact ⟨rfl, hset rfl⟩
  | queued => exact ⟨rfl, hset rfl⟩

theorem send_frame (cfg : Config) (hs : ∀ k, (c.runs k).Sound) (text : String) :
    (c.sendClipboard cfg.core text).1.started = c.started ∧
      ∀ k, ((c.sendClipboard cfg.core text).1.runs k).cancelled = (c.runs k).cancelled := by
  have hstep : Core.step cfg.core c (.sendClipboard text) =
      some ((c.sendClipboard cfg.core text).1, [.returned (c.sendClipboard cfg.core text).2]) := rfl
  exact core_frame hs (fun _ _ h => by cases h) (fun _ h => by cases h) hstep

end

theorem cancelPrevious_none (hq : s.connectionHandle = none) : s.cancelPrevious = s := by
  unfold cancelPrevious
  rw [hq]

theorem cancelPrevious_some (hq : s.connectionHandle = some q) :
    s.cancelPrevious = { s with core := s.core.setRun q { s.core.runs q with cancelled := true } } := by
  unfold cancelPrevious
  rw [hq]

/-- The handle is to the latest run; the others are cancelled, and the latest too while `startPairing` replaces it. -/
structure Handled (s : App) : Prop where
  handle : ∀ q, s.connectionHandle = some q → q + 1 = s.core.started
  unpaired : s.connectionHandle = none → s.core.started = 0
  cancelled : ∀ q, q < s.core.started → s.connectionHandle ≠ some q ∨ s.main = .pairing →
    (s.core.runs q).cancelled = true
  calling : ∀ q, s.callbacks q ≠ none → q < s.core.started

/-- The step of the core that a step of the app is. -/
def Calls (s : App) : Act → Ffi.Act → Prop
  | .core a, b => b = a
  | .startPairing, b => ∃ q, s.connectionHandle = some q ∧ b = .cancel q
  | .pair decoded endpoint, b => b = .pair decoded endpoint
  | .sendClipboard, b => ∃ text, b = .sendClipboard text
  | _, _ => False

theorem step_core (hi : Handled s) (h : step cfg s a = some (s', os)) :
    (∃ b, s.Calls a b ∧ s.core.step cfg.core b = some (s'.core, coreTrace os)) ∨
      s'.core = s.core ∧ coreTrace os = [] := by
  cases step_move h with
  | @core b c cos _ hs =>
    refine Or.inl ⟨b, rfl, ?_⟩
    rw [foldl_called, coreTrace_map]
    exact hs
  | callback hc =>
    right
    cases callback_turn hc <;> exact ⟨rfl, rfl⟩
  | began hm =>
    cases hq : s.connectionHandle with
    | none =>
      right
      rw [cancelPrevious_none hq]
      exact ⟨rfl, rfl⟩
    | some q =>
      left
      have hlt : q < s.core.started := by
        have := hi.handle q hq
        omega
      refine ⟨.cancel q, ⟨q, hq, rfl⟩, ?_⟩
      rw [cancelPrevious_some hq]
      simp only [Core.step, if_pos hlt]
      rfl
  | @paired decoded endpoint q hm hq =>
    refine Or.inl ⟨.pair decoded endpoint, rfl, ?_⟩
    simp only [Core.step, hq]
    rfl
  | @refused decoded endpoint e hm he =>
    refine Or.inl ⟨.pair decoded endpoint, rfl, ?_⟩
    simp only [Core.step, he]
    rfl
  | @tapped text hm ht => exact Or.inl ⟨.sendClipboard text, ⟨text, rfl⟩, rfl⟩
  | aside _ hos => exact Or.inr ⟨rfl, hos⟩

theorem Handled.core {a : Ffi.Act} {c : Core} {cos : List Ffi.Obs} (hi : Handled s) (hst : s.core.Started)
    (hs : ∀ k, (s.core.runs k).Sound) (ha : s.allows a = true) (hb : s.core.step cfg.core a = some (c, cos)) :
    Handled (cos.foldl called { s with core := c }) := by
  have hframe : c.started = s.core.started ∧ ∀ k, (c.runs k).cancelled = (s.core.runs k).cancelled := by
    refine core_frame hs (fun d e hp => ?_) (fun k hc => ?_) hb
    · subst hp
      cases ha
    · subst hc
      cases ha
  have hcalling : ∀ q, (cos.foldl called { s with core := c }).callbacks q ≠ none → q < s.core.started := by
    intro q hq
    have hkept : Core.told q cos = [] → q < s.core.started := by
      intro ht
      exact hi.calling q (by rw [← foldl_called_untold (s := { s with core := c }) ht]; exact hq)
    cases Core.step_flow hb with
    | silent _ hos => exact hkept (hos q).2.2
    | started _ _ hos => exact hkept (hos q).2.2
    | ran k act r outs _ _ _ hos =>
      subst hos
      exact hkept (Core.told_out k q outs)
    | told k e r _ _ _ hw hos =>
      by_cases hk : q = k
      · subst hk
        refine hst.lt fun hidle => ?_
        rw [hidle] at hw
        cases hw
      · subst hos
        exact hkept (Core.told_report_of_ne hk e)
  rw [foldl_called]
  exact
    { handle := fun q hq => (hi.handle q hq).trans hframe.1.symm
      unpaired := fun hn => hframe.1.trans (hi.unpaired hn)
      cancelled := fun q hq hc => (hframe.2 q).trans (hi.cancelled q (hframe.1 ▸ hq) hc)
      calling := fun q hq => lt_of_lt_of_eq (hcalling q hq) hframe.1.symm }

theorem Handled.setCallback {q : Nat} {c : Option Callback} (hi : Handled s) (hq : s.callbacks q ≠ none) :
    ∀ k, (s.setCallback q c).callbacks k ≠ none → k < s.core.started := by
  intro k hk
  by_cases hkq : k = q
  · subst hkq
    exact hi.calling k hq
  · refine hi.calling k ?_
    rw [show (s.setCallback q c).callbacks k = s.callbacks k from Function.update_of_ne hkq ..] at hk
    exact hk

theorem Handled.callback {q : Nat} (hi : Handled s) (h : s.callback cfg q = some (s', os)) : Handled s' := by
  cases callback_turn h with
  | wrote hq | skipped hq | reduced hq | assigned hq | served hq | titled hq | posted hq =>
    exact ⟨hi.handle, hi.unpaired, hi.cancelled, hi.setCallback (by rw [hq]; simp)⟩

theorem Handled.began (hi : Handled s) : Handled { s.cancelPrevious with main := .pairing } := by
  cases hq : s.connectionHandle with
  | none =>
    have hzero := hi.unpaired hq
    rw [cancelPrevious_none hq]
    exact
      { handle := hi.handle
        unpaired := fun _ => hzero
        cancelled := fun q hlt => absurd (show q < s.core.started from hlt) (by omega)
        calling := hi.calling }
  | some q =>
    rw [cancelPrevious_some hq]
    exact
      { handle := hi.handle
        unpaired := fun hn => by
          have hnone : s.connectionHandle = none := hn
          rw [hq] at hnone
          cases hnone
        cancelled := fun k hlt _ => by
          show ((s.core.setRun q _).runs k).cancelled = true
          by_cases hk : k = q
          · subst hk
            rw [Core.setRun_self]
          · rw [Core.setRun_of_ne hk]
            refine hi.cancelled k hlt (Or.inl fun hkq => hk ?_)
            rw [hq] at hkq
            exact (Option.some.inj hkq).symm
        calling := hi.calling }

theorem Handled.paired {decoded : Except String QrPayload} {endpoint : Except String Unit} {q : Nat} (hi : Handled s)
    (hm : s.main = .pairing) (hq : (s.core.pair cfg.core decoded endpoint).2 = .ok q) :
    Handled { s with core := (s.core.pair cfg.core decoded endpoint).1, connectionHandle := some q, starts := s.starts + 1,
                     main := .idle } := by
  obtain ⟨rfl, payload, trust, hcore⟩ := pair_ok hq
  rw [hcore]
  exact
    { handle := fun k hk => by
        cases hk
        rfl
      unpaired := fun hn => by cases hn
      cancelled := fun k hlt hc => by
        have hk : k ≠ s.core.started := by
          rintro rfl
          rcases hc with hc | hc
          · exact hc rfl
          · cases hc
        show ((s.core.setRun s.core.started _).runs k).cancelled = true
        rw [Core.setRun_of_ne hk]
        have hlt' : k < s.core.started + 1 := hlt
        exact hi.cancelled k (by omega) (Or.inr hm)
      calling := fun k hk => Nat.lt_succ_of_lt (hi.calling k hk) }

theorem Handled.step (hi : Handled s) (hst : s.core.Started) (hs : ∀ k, (s.core.runs k).Sound)
    (h : App.step cfg s a = some (s', os)) : Handled s' := by
  cases step_move h with
  | core ha hb => exact hi.core hst hs ha hb
  | callback hc => exact hi.callback hc
  | began hm => exact hi.began
  | paired hm hq => exact hi.paired hm hq
  | refused hm he =>
    obtain ⟨trust, hcore⟩ := pair_error he
    rw [hcore]
    exact ⟨hi.handle, hi.unpaired, fun q hq _ => hi.cancelled q hq (Or.inr hm), hi.calling⟩
  | @tapped text hm ht =>
    have hframe := send_frame cfg hs text
    exact
      { handle := fun q hq => (hi.handle q hq).trans hframe.1.symm
        unpaired := fun hn => hframe.1.trans (hi.unpaired hn)
        cancelled := fun q hq hc => (hframe.2 q).trans (hi.cancelled q (hframe.1 ▸ hq) hc)
        calling := fun q hq => lt_of_lt_of_eq (hi.calling q hq) hframe.1.symm }
  | aside hmain =>
    exact ⟨hi.handle, hi.unpaired, fun q hq hc => hi.cancelled q hq (hc.imp id fun hp => hmain.mp hp), hi.calling⟩

theorem run_core {C : List Obs → App → Act → Prop} (h : Run (system cfg) C tr s) :
    Run (Core.system cfg.core) always (coreTrace tr) s.core ∧ Handled s := by
  induction h with
  | init h0 =>
    obtain ⟨peers, tmp, clipboard, rfl⟩ := h0
    refine ⟨.init ⟨peers, tmp, rfl⟩, fun q hq => (by cases hq), fun _ => rfl, fun q hq => ?_, fun q hq => absurd rfl hq⟩
    exact absurd hq (Nat.not_lt_zero q)
  | step _ _ hs ih =>
    obtain ⟨hr, hi⟩ := ih
    refine ⟨?_, hi.step (Core.run_started hr) (Core.run_sound hr) hs⟩
    rw [coreTrace_append]
    rcases step_core hi hs with ⟨b, -, hb⟩ | ⟨hc, hos⟩
    · exact .step hr trivial hb
    · rw [hc, hos, List.append_nil]
      exact hr

/-! ## Clips on the clipboard -/

theorem setCallback_self (s : App) (q : Nat) (c : Option Callback) : (s.setCallback q c).callbacks q = c :=
  Function.update_self ..

theorem setCallback_of_ne (hk : k ≠ q) (s : App) (c : Option Callback) : (s.setCallback q c).callbacks k = s.callbacks k :=
  Function.update_of_ne hk ..

/-- The clips told of a run are those its callbacks have written, and the one in hand. -/
def Wrote (q : Nat) (tr : List Obs) (s : App) : Prop :=
  written q tr ++ unwritten (s.callbacks q) = (Core.told q (coreTrace tr)).filterMap text?

theorem Wrote.quiet (hi : Wrote q tr s) (hw : written q os = []) (ht : Core.told q (coreTrace os) = [])
    (hc : s'.callbacks q = s.callbacks q) : Wrote q (tr ++ os) s' := by
  unfold Wrote at *
  rw [written_append, hw, List.append_nil, coreTrace_append, Core.told_append, ht, List.append_nil, hc]
  exact hi

theorem Wrote.turn (hi : Wrote q tr s) (h : Turn cfg s k s' os) : Wrote q (tr ++ os) s' := by
  have hcore : coreTrace os = [] := by cases h <;> rfl
  by_cases hk : q = k
  · subst hk
    have hwrite : ∀ {w c}, w ++ unwritten c = unwritten (s.callbacks q) → written q os = w → s'.callbacks q = c →
        Wrote q (tr ++ os) s' := by
      intro w c hw hos hc
      unfold Wrote at *
      rw [written_append, hos, hc, List.append_assoc, hw, coreTrace_append, hcore, List.append_nil]
      exact hi
    cases h with
    | wrote hq => exact hwrite (w := [_]) (by rw [hq]; rfl) (by simp [written, Obs.wrote?]) (setCallback_self ..)
    | skipped hq he => exact hwrite (w := []) (by rw [hq]; simp [unwritten, he]) rfl (setCallback_self ..)
    | reduced hq => exact hwrite (w := []) (by rw [hq]; rfl) rfl (setCallback_self ..)
    | assigned hq => exact hwrite (w := []) (by rw [hq]; rfl) rfl (setCallback_self ..)
    | served hq => exact hwrite (w := []) (by rw [hq]; split <;> rfl) rfl (setCallback_self ..)
    | titled hq => exact hwrite (w := []) (by rw [hq]; rfl) rfl (setCallback_self ..)
    | posted hq => exact hwrite (w := []) (by rw [hq]; rfl) rfl (setCallback_self ..)
  · have hother : s'.callbacks q = s.callbacks q ∧ written q os = [] := by
      cases h with
      | wrote => exact ⟨setCallback_of_ne hk _ _, by simp [written, Obs.wrote?, Ne.symm hk]⟩
      | _ => exact ⟨setCallback_of_ne hk _ _, rfl⟩
    exact hi.quiet hother.2 (by rw [hcore]; rfl) hother.1

theorem idle_of_allows {b : Ffi.Act} (ha : s.allows b = true) (hb : b.forwarder? = some q) : s.callbacks q = none := by
  cases b with
  | forward k | load k _ | write k _ | rename k _ =>
    cases hb
    exact Option.isNone_iff_eq_none.mp ha
  | _ => cases hb

theorem Wrote.step (hi : Wrote q tr s) (h : App.step cfg s a = some (s', os)) : Wrote q (tr ++ os) s' := by
  cases step_move h with
  | @core b c cos ha hb =>
    have hkept : Core.told q cos = [] → Wrote q (tr ++ cos.map .core) (cos.foldl called { s with core := c }) := by
      intro ht
      exact hi.quiet (written_map q cos) (by rw [coreTrace_map, ht]) (foldl_called_untold (s := { s with core := c }) ht)
    cases Core.step_flow hb with
    | silent _ hos => exact hkept (hos q).2.2
    | started _ _ hos => exact hkept (hos q).2.2
    | ran k act r outs _ _ _ hos =>
      subst hos
      exact hkept (Core.told_out k q outs)
    | told k e r hfw _ _ hw hos =>
      subst hos
      by_cases hk : q = k
      · subst hk
        have hidle := idle_of_allows ha hfw
        unfold Wrote at *
        rw [hidle] at hi
        rw [written_append, written_map, List.append_nil, coreTrace_append, coreTrace_map, Core.told_append,
          foldl_called_callbacks, Core.told_report, List.filterMap_append, ← hi, hidle]
        cases toCoreEvent e with
        | none => simp [unwritten]
        | some x =>
          show _ ++ (text? x).toList = _ ++ _ ++ List.filterMap text? [x]
          rw [List.filterMap_cons]
          cases text? x <;> simp [unwritten]
      · exact hkept (Core.told_report_of_ne hk e)
  | callback hc => exact hi.turn (callback_turn hc)
  | began hm =>
    refine hi.quiet rfl rfl ?_
    cases hq : s.connectionHandle with
    | none => rw [cancelPrevious_none hq]
    | some q => rw [cancelPrevious_some hq]
  | paired => exact hi.quiet rfl rfl rfl
  | refused => exact hi.quiet rfl rfl rfl
  | tapped => exact hi.quiet rfl rfl rfl
  | aside _ hos hw => exact hi.quiet (hw q) (by rw [hos]; rfl) rfl

theorem run_wrote (h : Run (system cfg) always tr s) (q : Nat) : Wrote q tr s := by
  induction h with
  | init h0 =>
    obtain ⟨peers, tmp, clipboard, rfl⟩ := h0
    rfl
  | step _ _ hs ih => exact Wrote.step ih hs

/-- Every event a run's sessions report is told once and in order, except what an
abort drops, and every clip told is written to the clipboard once and in order. -/
theorem run_heard (h : Run (system cfg) always tr s) (q : Nat) :
    (∃ lost, (Core.told q (coreTrace tr)).filter Core.fromSession ++
        ((s.core.runs q).waiting.filterMap toCoreEvent).filter Core.fromSession ++ lost =
      (Core.reported q (coreTrace tr)).filterMap Core.tell ∧ ((s.core.runs q).dialer.pc = .gone ∨ lost = [])) ∧
      written q tr ++ unwritten (s.callbacks q) = (Core.told q (coreTrace tr)).filterMap text? :=
  ⟨(Core.run_telling (run_core h).1 q).1.kept, run_wrote h q⟩

end App

def pocket : Config := ⟨phone, fun _ => "", true⟩

namespace App

def greeted : List Act :=
  [.startPairing, .pair (.ok desk) (.ok ()), .core (.run 0 (.dial true)), .core (.run 0 (.connect true)),
    .core (.run 0 (.openBi true)), .core (.run 0 (.drive 0 (.start true))),
    .core (.run 0 (.drive 0 (.receive (encode (.handshake hello)) 0 0 true))), .core (.run 0 .drain), .core (.forward 0),
    .core (.forward 0), .core (.load 0 true), .core (.write 0 .whole), .core (.rename 0 true), .callback 0, .callback 0,
    .callback 0, .callback 0]

def pasted : List Act :=
  greeted ++
    [.core (.run 0 (.drive 0 (.receive (encode (.clipboard ⟨mimeTextPlain, utf8 "hi", Bytes.fill 32 0⟩)) 0 0 true))),
      .core (.run 0 .drain), .core (.forward 0), .callback 0]

theorem pasted_enabled : (exec (system pocket) anyway [] (new none none none) pasted).isSome = true := by
  decide +kernel

theorem run_heard_pasted :
    let r := (exec (system pocket) anyway [] (new none none none) pasted).get pasted_enabled
    written 0 r.1 = (Core.told 0 (coreTrace r.1)).filterMap text? ∧ written 0 r.1 = ["hi"] := by
  have hr := run_of_anyway (M := system pocket) ⟨none, none, none, rfl⟩ pasted_enabled
  have hw := (run_heard hr 0).2
  have hidle : unwritten (((exec (system pocket) anyway [] (new none none none) pasted).get pasted_enabled).2.callbacks 0) =
      [] := by
    decide +kernel
  rw [hidle, List.append_nil] at hw
  exact ⟨hw, by decide +kernel⟩

end App

end Android

end PenguinSync
