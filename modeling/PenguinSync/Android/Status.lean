import PenguinSync.Android.Moves

/-!
# What the app shows

Where one run is over before the next begins, the status is that of the latest
run's session, and the notification follows the status.
-/

namespace PenguinSync

open Lts Ffi

namespace Android

def ConnectionStatus.peer? : ConnectionStatus → Option Peer
  | .connected name deviceId _ => some (name, deviceId)
  | _ => none

theorem ConnectionStatus.reduce_peer (st : ConnectionStatus) (e : CoreEvent) :
    (st.reduce e).peer? = coreAfter st.peer? e := by
  cases e with
  | ponged rttMs => cases st <;> rfl
  | _ => rfl

/-- Whom the status is going to show once the callback is over. -/
def settling (st : ConnectionStatus) : Option Callback → Option Peer
  | some (.write e) | some (.reduce e) => coreAfter st.peer? e
  | some (.assign _ status) => status.peer?
  | _ => st.peer?

namespace App

variable {cfg : Config} {s s' : App} {a : Act} {tr os : List Obs} {q k : Nat} {h : SessionHandle}

/-! ## One run at a time -/

/-- Nothing more comes of run `q`: its dial task is gone and no event is on its way. -/
def Over (s : App) (q : Nat) : Prop :=
  (s.core.runs q).dialer.pc = .gone ∧ (s.core.runs q).waiting = [] ∧ s.callbacks q = none

/-- A run is started only when those before it are over, and none is aborted while it drains a session. -/
def OneAtATime (cfg : Config) (_ : List Obs) (s : App) : Act → Prop
  | .pair decoded endpoint => (∃ q, (s.core.pair cfg.core decoded endpoint).2 = .ok q) → ∀ q < s.core.started, s.Over q
  | .core (.run q .abort) => drained (s.core.runs q).dialer.pc = none
  | _ => True

def Older (s : App) : Prop := ∀ q, q + 1 < s.core.started → s.Over q

theorem core_over {c c' : Core} {b : Ffi.Act} {cos : List Ffi.Obs} (hs : (c.runs q).Sound) (hat : (c.runs q).Attached)
    (hq : q < c.started) (hg : (c.runs q).dialer.pc = .gone) (hw : (c.runs q).waiting = [])
    (h : Core.step cfg.core c b = some (c', cos)) :
    (c'.runs q).dialer.pc = .gone ∧ (c'.runs q).waiting = [] ∧ Core.told q cos = [] := by
  have hother : ∀ {k r}, q ≠ k → c'.runs = Function.update c.runs k r → c'.runs q = c.runs q := by
    intro k r hk hr
    rw [hr, Function.update_of_ne hk]
  cases Core.step_flow h with
  | silent hall hos =>
    obtain ⟨ha, hw'⟩ := hall q
    exact ⟨by rw [ha.dialer, hg], hw'.trans hw, (hos q).2.2⟩
  | started payload hr hos =>
    rw [hother (Nat.ne_of_lt hq) hr]
    exact ⟨hg, hw, (hos q).2.2⟩
  | ran k act r outs _ hstep hr hos =>
    by_cases hk : q = k
    · subst hk
      have hrun : c'.runs q = r := by rw [hr, Function.update_self]
      rw [hrun, hos, Core.told_out]
      cases PairRun.step_carry hs hat hstep with
      | quiet _ hne => exact absurd hg hne
      | kept hw' hpc => exact ⟨hpc.trans hg, hw'.trans hw, rfl⟩
      | closed _ _ hne => exact absurd hg hne
      | drove n _ hp =>
        rw [hp] at hg
        cases hg
      | cut _ _ hd =>
        rw [hg] at hd
        exact absurd rfl hd
      | gone _ hg' hw' => exact ⟨hg', hw'.trans hw, rfl⟩
    · rw [hother hk hr, hos]
      exact ⟨hg, hw, Core.told_out k q outs⟩
  | told k e r _ hr _ hw' hos =>
    by_cases hk : q = k
    · subst hk
      rw [hw] at hw'
      cases hw'
    · rw [hother hk hr, hos]
      exact ⟨hg, hw, Core.told_report_of_ne hk e⟩

theorem Older.step (hi : Older s) (hs : ∀ k, (s.core.runs k).Sound) (hat : ∀ k, (s.core.runs k).Attached)
    (hc : OneAtATime cfg tr s a) (h : App.step cfg s a = some (s', os)) : Older s' := by
  cases step_move h with
  | @core b c cos ha hb =>
    have hframe : c.started = s.core.started := by
      refine (core_frame hs (fun d e hp => ?_) (fun k hc => ?_) hb).1
      · subst hp
        cases ha
      · subst hc
        cases ha
    intro q hq
    rw [foldl_called] at hq ⊢
    have hlt : q + 1 < s.core.started := hframe ▸ hq
    obtain ⟨hg, hw, hidle⟩ := hi q hlt
    obtain ⟨hg', hw', ht⟩ := core_over (hs q) (hat q) (Nat.lt_of_succ_lt hlt) hg hw hb
    exact ⟨hg', hw', (foldl_called_untold (s := { s with core := c }) ht).trans hidle⟩
  | @callback k _ _ hcb =>
    have hset : ∀ {x : Callback} {c}, s.callbacks k = some x → s'.core = s.core →
        s'.callbacks = Function.update s.callbacks k c → Older s' := by
      intro x c hx hcore hcall q hq
      rw [hcore] at hq
      obtain ⟨hg, hw, hidle⟩ := hi q hq
      have hk : q ≠ k := by
        rintro rfl
        rw [hx] at hidle
        cases hidle
      refine ⟨by rw [hcore]; exact hg, by rw [hcore]; exact hw, ?_⟩
      rw [hcall, Function.update_of_ne hk]
      exact hidle
    cases callback_turn hcb with
    | wrote hq => exact hset hq rfl rfl
    | skipped hq => exact hset hq rfl rfl
    | reduced hq => exact hset hq rfl rfl
    | assigned hq => exact hset hq rfl rfl
    | served hq => exact hset hq rfl rfl
    | titled hq => exact hset hq rfl rfl
    | posted hq => exact hset hq rfl rfl
  | began hm =>
    cases hq : s.connectionHandle with
    | none =>
      rw [cancelPrevious_none hq]
      exact hi
    | some n =>
      rw [cancelPrevious_some hq]
      intro q hlt
      obtain ⟨hg, hw, hidle⟩ := hi q hlt
      by_cases hqn : q = n
      · subst hqn
        refine ⟨?_, ?_, hidle⟩
        · show ((s.core.setRun q _).runs q).dialer.pc = .gone
          rw [Core.setRun_self]
          exact hg
        · show ((s.core.setRun q _).runs q).waiting = []
          rw [Core.setRun_self]
          exact hw
      · refine ⟨?_, ?_, hidle⟩
        · show ((s.core.setRun n _).runs q).dialer.pc = .gone
          rw [Core.setRun_of_ne hqn]
          exact hg
        · show ((s.core.setRun n _).runs q).waiting = []
          rw [Core.setRun_of_ne hqn]
          exact hw
  | @paired decoded endpoint n hm hn =>
    obtain ⟨rfl, payload, trust, hcore⟩ := pair_ok hn
    rw [hcore]
    intro q hlt
    have hlt' : q < s.core.started := Nat.lt_of_succ_lt_succ hlt
    obtain ⟨hg, hw, hidle⟩ := hc ⟨_, hn⟩ q hlt'
    have hrun : (s.core.setRun s.core.started (.start cfg.core payload)).runs q = s.core.runs q :=
      Core.setRun_of_ne (Nat.ne_of_lt hlt') _
    refine ⟨?_, ?_, hidle⟩
    · show ((s.core.setRun s.core.started _).runs q).dialer.pc = .gone
      rw [hrun]
      exact hg
    · show ((s.core.setRun s.core.started _).runs q).waiting = []
      rw [hrun]
      exact hw
  | refused hm he =>
    obtain ⟨trust, hcore⟩ := pair_error he
    rw [hcore]
    exact hi
  | @tapped text hm ht =>
    have hframe := send_frame cfg hs text
    intro q hq
    have hlt : q + 1 < s.core.started := hframe.1 ▸ hq
    obtain ⟨hg, hw, hidle⟩ := hi q hlt
    have hstep : Core.step cfg.core s.core (.sendClipboard text) =
        some ((s.core.sendClipboard cfg.core text).1, [.returned (s.core.sendClipboard cfg.core text).2]) := rfl
    obtain ⟨hg', hw', -⟩ := core_over (hs q) (hat q) (Nat.lt_of_succ_lt hlt) hg hw hstep
    exact ⟨hg', hw', hidle⟩
  | aside => exact hi

theorem run_older (h : Run (system cfg) (OneAtATime cfg) tr s) : Older s := by
  induction h with
  | init h0 =>
    obtain ⟨peers, tmp, clipboard, rfl⟩ := h0
    intro q hq
    exact absurd hq (Nat.not_lt_zero _)
  | step hr hc hs ih =>
    have hcore := (run_core hr).1
    exact ih.step (Core.run_sound hcore) (fun k => (Core.run_telling hcore k).1.attached) hc hs

/-- The core under such a run keeps the order that `send_clipboard` asks for. -/
theorem run_orderly (h : Run (system cfg) (OneAtATime cfg) tr s) :
    Run (Core.system cfg.core) (fun _ c b => c.Orderly cfg.core b ∧ c.Unhurried b) (coreTrace tr) s.core := by
  refine h.projected (f := App.core) (g := Obs.core?) (fun s h0 => ?_) fun tr s a s' os hr hc hs => ?_
  · obtain ⟨peers, tmp, clipboard, rfl⟩ := h0
    exact ⟨peers, tmp, rfl⟩
  · obtain ⟨hcore, hi⟩ := run_core hr
    have hold := run_older hr
    have hst := Core.run_started hcore
    have hsound := Core.run_sound hcore
    have hgone : ∀ q, q + 1 ≠ s.core.started → (s.core.runs q).dialer.pc = .gone ∧ (s.core.runs q).waiting = [] := by
      intro q hq
      by_cases hlt : q + 1 < s.core.started
      · exact ⟨(hold q hlt).1, (hold q hlt).2.1⟩
      · rw [hst.idle q (by omega)]
        exact ⟨rfl, rfl⟩
    rcases step_core hi hs with ⟨b, hb, hstep⟩ | hsame
    · refine Or.inl ⟨b, ?_, hstep⟩
      cases a with
      | core a =>
        cases hb
        cases b with
        | run q act =>
          cases act with
          | openBi ok =>
            refine ⟨?_, trivial⟩
            cases ok with
            | false => trivial
            | true =>
              by_contra hne
              have hg := (hgone q hne).1
              simp only [Core.step] at hstep
              split at hstep
              · rename_i r outs hrun
                obtain ⟨hm, -⟩ := PairRun.step_move (hsound q).listening hrun
                cases hm with
                | aside hng => exact hng hg
                | opened hp =>
                  rw [hg] at hp
                  cases hp
              · cases hstep
          | abort => exact ⟨hc, hc⟩
          | _ => exact ⟨trivial, trivial⟩
        | forward q =>
          refine ⟨fun e rest k n hch _ hslot hlt => ?_, trivial⟩
          have hk := hst.slot k n hslot
          have hw := (hgone q (by omega)).2
          unfold PairRun.waiting at hw
          rw [hch] at hw
          simp at hw
        | load | write | rename => exact ⟨trivial, trivial⟩
        | _ => exact absurd hs (by simp [system, step, allows])
      | pair decoded endpoint =>
        cases hb
        refine ⟨fun hok q => ?_, trivial⟩
        by_cases hlt : q < s.core.started
        · rw [(hc hok q hlt).1]
          rfl
        · rw [hst.idle q (Nat.le_of_not_lt hlt)]
          rfl
      | startPairing =>
        obtain ⟨q, -, rfl⟩ := hb
        exact ⟨trivial, trivial⟩
      | sendClipboard =>
        obtain ⟨text, rfl⟩ := hb
        exact ⟨trivial, trivial⟩
      | _ => cases hb
    · exact Or.inr hsame

/-! ## The status follows the latest run -/

/-- What the listener was told of the latest run is what the status shows, or is going to. -/
structure Current (tr : List Obs) (s : App) : Prop where
  fresh : s.core.started = 0 → s.connectionStatus.peer? = none
  latest : ∀ q, q + 1 = s.core.started →
    settling s.connectionStatus (s.callbacks q) = (Core.told q (coreTrace tr)).foldl coreAfter none

theorem Current.same (hi : Current tr s) (hn : s'.core.started = s.core.started)
    (hst : s'.connectionStatus = s.connectionStatus) (hc : s'.callbacks = s.callbacks)
    (ht : ∀ q, Core.told q (coreTrace os) = []) : Current (tr ++ os) s' := by
  refine ⟨fun h0 => ?_, fun q hq => ?_⟩
  · rw [hst]
    exact hi.fresh (hn ▸ h0)
  · rw [hst, hc, coreTrace_append, Core.told_append, ht, List.append_nil]
    exact hi.latest q (hn ▸ hq)

theorem turn_settling (h : Turn cfg s q s' os) :
    settling s'.connectionStatus (s'.callbacks q) = settling s.connectionStatus (s.callbacks q) := by
  cases h with
  | wrote hq | skipped hq =>
    rw [setCallback_self, hq]
    rfl
  | reduced hq =>
    rw [setCallback_self, hq]
    exact s.connectionStatus.reduce_peer _
  | assigned hq =>
    rw [setCallback_self, hq]
    rfl
  | served hq =>
    rw [setCallback_self, hq]
    split <;> rfl
  | titled hq | posted hq =>
    rw [setCallback_self, hq]
    rfl

theorem turn_frame (h : Turn cfg s q s' os) : s'.core = s.core ∧ coreTrace os = [] ∧ s.callbacks q ≠ none ∧
    ∀ k ≠ q, s'.callbacks k = s.callbacks k := by
  cases h with
  | wrote hq | skipped hq | reduced hq | assigned hq | served hq | titled hq | posted hq =>
    exact ⟨rfl, rfl, by rw [hq]; simp, fun k hk => setCallback_of_ne hk _ _⟩

/-- The status shows nobody when the next run may be started. -/
theorem Current.unshown (hi : Current tr s) (hshown : ∀ q, Core.Shown q (coreTrace tr) s.core)
    (hover : ∀ q < s.core.started, s.Over q) : s.connectionStatus.peer? = none := by
  cases hn : s.core.started with
  | zero => exact hi.fresh hn
  | succ q =>
    obtain ⟨hg, hw, hidle⟩ := hover q (by omega)
    have hlatest := hi.latest q hn.symm
    rw [hidle] at hlatest
    have hs := hshown q
    unfold Core.Shown PairRun.Shows at hs
    rw [hg, hw] at hs
    exact hlatest.trans hs

theorem Current.step (hi : Current tr s) (hh : Handled s) (hold : Older s)
    (hs : ∀ k, (s.core.runs k).Sound) (hu : Core.Unseen (coreTrace tr) s.core)
    (hshown : ∀ q, Core.Shown q (coreTrace tr) s.core) (hc : OneAtATime cfg tr s a)
    (h : App.step cfg s a = some (s', os)) : Current (tr ++ os) s' := by
  cases step_move h with
  | @core b c cos ha hb =>
    have hframe : c.started = s.core.started := by
      refine (core_frame hs (fun d e hp => ?_) (fun k hc => ?_) hb).1
      · subst hp
        cases ha
      · subst hc
        cases ha
    rw [foldl_called]
    refine ⟨fun h0 => hi.fresh (hframe ▸ h0), fun q hq => ?_⟩
    have hq' : q + 1 = s.core.started := hframe ▸ hq
    have hkept : Core.told q cos = [] → settling s.connectionStatus ((cos.foldl called { s with core := c }).callbacks q) =
        (Core.told q (coreTrace (tr ++ cos.map .core))).foldl coreAfter none := by
      intro ht
      rw [foldl_called_untold ht, coreTrace_append, coreTrace_map, Core.told_append, ht, List.append_nil]
      exact hi.latest q hq'
    cases Core.step_flow hb with
    | silent _ hos => exact hkept (hos q).2.2
    | started _ _ hos => exact hkept (hos q).2.2
    | ran k act r outs _ _ _ hos =>
      subst hos
      exact hkept (Core.told_out k q outs)
    | told k e r hfw _ _ hw hos =>
      subst hos
      by_cases hk : q = k
      · subst hk
        have hidle := idle_of_allows ha hfw
        have hlatest := hi.latest q hq'
        rw [hidle] at hlatest
        show settling s.connectionStatus _ = _
        rw [foldl_called_callbacks, hidle, coreTrace_append, coreTrace_map, Core.told_append, List.foldl_append, ← hlatest,
          Core.told_report]
        cases toCoreEvent e <;> rfl
      · exact hkept (Core.told_report_of_ne hk e)
  | @callback k _ _ hcb =>
    have hturn := callback_turn hcb
    obtain ⟨hcore, hos, hcall, hother⟩ := turn_frame hturn
    have hk : k + 1 = s.core.started := by
      have hlt := hh.calling k hcall
      by_contra hne
      exact hcall (hold k (by omega)).2.2
    refine ⟨fun h0 => ?_, fun q hq => ?_⟩
    · rw [hcore, ← hk] at h0
      cases h0
    · rw [hcore] at hq
      obtain rfl : q = k := by omega
      rw [turn_settling hturn, coreTrace_append, hos, List.append_nil]
      exact hi.latest q hq
  | began hm =>
    cases hq : s.connectionHandle with
    | none =>
      rw [cancelPrevious_none hq]
      exact hi.same rfl rfl rfl fun _ => rfl
    | some n =>
      rw [cancelPrevious_some hq]
      exact hi.same rfl rfl rfl fun _ => rfl
  | @paired decoded endpoint n hm hn =>
    have hnone := hi.unshown hshown (hc ⟨n, hn⟩)
    obtain ⟨rfl, payload, trust, hcore⟩ := pair_ok hn
    rw [hcore]
    refine ⟨fun h0 => (by cases h0), fun q hq => ?_⟩
    obtain rfl : q = s.core.started := Nat.succ.inj hq
    have hidle : s.callbacks s.core.started = none := by
      by_contra hne
      exact absurd (hh.calling _ hne) (Nat.lt_irrefl _)
    have htold : Core.told s.core.started (coreTrace (tr ++ [.core (.paired (.ok s.core.started))])) = [] := by
      rw [coreTrace_append, Core.told_append, (hu s.core.started (Nat.le_refl _)).1]
      rfl
    rw [htold, hidle]
    exact hnone
  | refused hm he =>
    obtain ⟨trust, hcore⟩ := pair_error he
    rw [hcore]
    exact hi.same rfl rfl rfl fun _ => rfl
  | @tapped text hm ht =>
    have hframe := send_frame cfg hs text
    exact hi.same hframe.1 rfl rfl fun _ => rfl
  | aside _ hos => exact hi.same rfl rfl rfl fun q => by rw [hos]; rfl

theorem run_current (h : Run (system cfg) (OneAtATime cfg) tr s) : Current tr s := by
  induction h with
  | init h0 =>
    obtain ⟨peers, tmp, clipboard, rfl⟩ := h0
    exact ⟨fun _ => rfl, fun q hq => (by cases hq)⟩
  | step hr hc hs ih =>
    obtain ⟨hcore, hi⟩ := run_core hr
    have hshown := fun q => Core.run_shown ((run_orderly hr).mono fun _ _ _ h => h.2) q
    exact ih.step hi (run_older hr) (Core.run_sound hcore) (Core.run_telling hcore 0).2 hshown hc hs

/-! ## The status is true -/

def Quiet (s : App) : Prop := ∀ q, (s.core.runs q).waiting = [] ∧ s.callbacks q = none

/-- The session that the run behind the handle drains has shaken hands and is not closed. -/
def Live (s : App) (q : Nat) (h : SessionHandle) : Prop :=
  s.connectionHandle = some q ∧ (s.core.runs q).dialer.pc = .draining h ∧ Core.Up (s.core.runs q) h

def Introduced (tr : List Obs) (q : Nat) (h : SessionHandle) (name deviceId : String) : Prop :=
  ∃ id capabilities token, deviceId = toHex id ∧
    .core (.out q h (.event (.peerHandshake id name capabilities token))) ∈ tr

structure Truthful (cfg : Config) (tr : List Obs) (s : App) : Prop where
  connected : ∀ name deviceId rtt, s.connectionStatus = .connected name deviceId rtt →
    ∃ q h, s.Live q h ∧ Introduced tr q h name deviceId
  live : ∀ q h, s.Live q h → ∃ name deviceId rtt, s.connectionStatus = .connected name deviceId rtt ∧
    Introduced tr q h name deviceId
  sends : ∀ q h text, s.Live q h → s.clipText cfg = some text → (utf8 text).length ≤ maxContentLen →
    .sent .sent ∈ (s.sendClipboardFromFocusedContext cfg).2 ∧
      (s.sendClipboardFromFocusedContext cfg).1.core.Writes cfg.core q h
        ⟨mimeTextPlain, utf8 text, cfg.core.blake3 (utf8 text)⟩

theorem settled_of_quiet (hq : s.Quiet) : s.core.Settled := by
  intro q
  have hw := (hq q).1
  unfold PairRun.waiting at hw
  obtain ⟨hfw, hrest⟩ := List.append_eq_nil_iff.mp hw
  refine ⟨(List.append_eq_nil_iff.mp hrest).1, ?_⟩
  cases hf : (s.core.runs q).forwarder with
  | recv => exact Or.inl rfl
  | exited => exact Or.inr rfl
  | _ =>
    rw [hf] at hfw
    simp [Forwarder.event?] at hfw

theorem mem_of_reportedOn {e : SessionEvent} (he : e ∈ Core.reportedOn q h (coreTrace tr)) :
    .core (.out q h (.event e)) ∈ tr := by
  obtain ⟨o, ho, hoe⟩ := List.mem_filterMap.mp he
  obtain ⟨x, hx, hxo⟩ := List.mem_filterMap.mp ho
  cases x with
  | core o' =>
    cases hxo
    cases o with
    | out k n out =>
      simp only [Obs.reportOn?, Option.ite_none_right_eq_some] at hoe
      obtain ⟨⟨rfl, rfl⟩, hev⟩ := hoe
      cases out with
      | event e' =>
        cases hev
        exact hx
      | _ => cases hev
    | _ => cases hoe
  | _ => cases hxo

theorem peer_some {st : ConnectionStatus} {p : Peer} (h : st.peer? = some p) : ∃ rtt, st = .connected p.1 p.2 rtt := by
  cases st with
  | connected name deviceId rtt =>
    cases h
    exact ⟨rtt, rfl⟩
  | _ => cases h

theorem run_last (hi : Handled s) (q : Nat) : s.connectionHandle = some q ↔ q + 1 = s.core.started := by
  refine ⟨hi.handle q, fun hn => ?_⟩
  cases hc : s.connectionHandle with
  | none =>
    have hzero := hi.unpaired hc
    omega
  | some k =>
    have hk := hi.handle k hc
    congr 1
    omega

/-- A quiet app shows as connected the peer of the session that is up, if one is. -/
theorem run_connected (h : Run (system cfg) (OneAtATime cfg) tr s) (hq : s.Quiet) :
    (∀ name deviceId rtt, s.connectionStatus = .connected name deviceId rtt →
        ∃ q h, s.Live q h ∧ Introduced tr q h name deviceId) ∧
      ∀ q h, s.Live q h → ∃ name deviceId rtt, s.connectionStatus = .connected name deviceId rtt ∧
        Introduced tr q h name deviceId := by
  obtain ⟨hcore, hi⟩ := run_core h
  have hcurrent := run_current h
  have hpeer : ∀ q, q + 1 = s.core.started → s.connectionStatus.peer? =
      (drained (s.core.runs q).dialer.pc).elim none fun n => known (Core.reportedOn q n (coreTrace tr)) := by
    intro q hlast
    have hlatest := hcurrent.latest q hlast
    rw [(hq q).2] at hlatest
    have hshown := Core.run_shown ((run_orderly h).mono fun _ _ _ h => h.2) q
    unfold Core.Shown PairRun.Shows at hshown
    rw [(hq q).1, peerAt_nil] at hshown
    exact hlatest.trans hshown
  have htold : ∀ q n, (s.core.runs q).dialer.pc = .draining n → ∃ t hello,
      ((s.core.runs q).conns n).session = some t ∧ t.Told (Core.reportedOn q n (coreTrace tr)) hello := by
    intro q n hp
    obtain ⟨t, ht, -⟩ := (Core.run_sound hcore q).driven n hp
    obtain ⟨hello, htold⟩ := (Core.run_telling hcore q).1.sessions n t ht
    exact ⟨t, hello, ht, htold⟩
  have hshake : ∀ {q n} {x : Handshake}, x.event ∈ Core.reportedOn q n (coreTrace tr) →
      Introduced tr q n x.name (toHex x.deviceId) := by
    intro q n x hx
    exact ⟨x.deviceId, x.capabilities, x.pairingToken, rfl, mem_of_reportedOn hx⟩
  refine ⟨fun name deviceId rtt hst => ?_, fun q n hlive => ?_⟩
  · have hne : s.core.started ≠ 0 := by
      intro h0
      have hfresh := hcurrent.fresh h0
      rw [hst] at hfresh
      cases hfresh
    obtain ⟨q, hn⟩ := Nat.exists_eq_succ_of_ne_zero hne
    have hp := hpeer q hn.symm
    rw [hst] at hp
    cases hd : drained (s.core.runs q).dialer.pc with
    | none =>
      rw [hd] at hp
      cases hp
    | some n =>
      rw [hd] at hp
      have hpc := drained_iff.mp hd
      obtain ⟨t, hello, ht, htells⟩ := htold q n hpc
      by_cases hup : t.machine.phase = .ready ∧ t.stage ≠ .done
      · obtain ⟨x, hx, hk⟩ := (known_told htells).1 hup
        obtain ⟨rfl, rfl⟩ := Prod.mk.inj (Option.some.inj (hp.trans hk))
        exact ⟨q, n, ⟨(run_last hi q).mpr hn.symm, hpc, t, ht, hup⟩, hshake hx⟩
      · have hnone := (known_told htells).2 hup
        rw [Option.elim_some, hnone] at hp
        cases hp
  · obtain ⟨hhandle, hpc, t, ht, hup⟩ := hlive
    obtain ⟨t', hello, ht', htells⟩ := htold q n hpc
    obtain rfl := Option.some.inj (ht.symm.trans ht')
    obtain ⟨x, hx, hk⟩ := (known_told htells).1 hup
    have hp := hpeer q ((run_last hi q).mp hhandle)
    rw [drained_iff.mpr hpc, Option.elim_some, hk] at hp
    obtain ⟨rtt, hst⟩ := peer_some hp
    exact ⟨x.name, toHex x.deviceId, rtt, hst, hshake hx⟩

theorem quiet_of (hst : s.core.Started) (hh : Handled s)
    (h : ∀ q < s.core.started, (s.core.runs q).waiting = [] ∧ s.callbacks q = none) : s.Quiet := by
  intro q
  by_cases hq : q < s.core.started
  · exact h q hq
  · refine ⟨by rw [hst.idle q (Nat.le_of_not_lt hq)]; rfl, ?_⟩
    by_contra hne
    exact hq (hh.calling q hne)

/-- A check that implies `OneAtATime`. -/
def once (s : App) : Act → Bool
  | .pair .. => s.core.started = 0
  | .core (.run q .abort) => drained (s.core.runs q).dialer.pc = none
  | _ => true

theorem once_sound (h : s.once a = true) : OneAtATime cfg tr s a := by
  unfold once at h
  unfold OneAtATime
  split at h
  · intro _ q hq
    rw [of_decide_eq_true h] at hq
    exact absurd hq (Nat.not_lt_zero q)
  · exact of_decide_eq_true h
  · trivial

theorem greeted_enabled : (exec (system pocket) (fun _ => once) [] (new none none none) greeted).isSome = true := by
  decide +kernel

end App

end Android

end PenguinSync
