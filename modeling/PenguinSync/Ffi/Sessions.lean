import PenguinSync.Protocol.Link
import PenguinSync.Net.RoundTrip
import PenguinSync.Ffi.Told

/-!
# One session of the core

What each step of the core is for the session behind one connection: it opens
it, takes a step of its driving task, hands it a clip or passes it by.
-/

namespace PenguinSync

open Lts

/-- The loop brings up sessions for its own identity and keeps that. -/
theorem Dialer.step_identity {d d' : Dialer} {a : Dialer.Act} {os : List Dialer.Obs} (h : d.step a = some (d', os)) :
    (d'.localId = d.localId ∧ d'.keepaliveInterval = d.keepaliveInterval) ∧
      ∀ n m, .opened n m ∈ os → ∃ t, m = .new d.localId d.keepaliveInterval t := by
  have hsend : ∀ {e n m}, Dialer.Obs.opened n m ∉ d.send e := by
    intro e n m hm
    unfold send at hm
    split at hm <;> simp at hm
  cases a with
  | dial ok | wake | abort =>
    simp only [step, Option.ite_none_right_eq_some, Option.some.injEq, Prod.mk.injEq] at h
    obtain ⟨-, rfl, rfl⟩ := h
    exact ⟨⟨rfl, rfl⟩, by simp⟩
  | connect ok =>
    simp only [step] at h
    split at h
    · split at h <;> (cases h; exact ⟨⟨rfl, rfl⟩, by simp⟩)
    · cases h
  | openBi ok =>
    simp only [step] at h
    split at h
    · rename_i token k hp
      split at h
      · split at h <;> (cases h; refine ⟨⟨rfl, rfl⟩, fun n m hm => ⟨token, ?_⟩⟩; simp at hm; exact hm.2)
      · cases h
        exact ⟨⟨rfl, rfl⟩, by simp⟩
    · cases h
  | event e =>
    simp only [step] at h
    split at h
    · cases h
      exact ⟨⟨rfl, rfl⟩, fun n m hm => absurd hm hsend⟩
    · cases h
  | ended =>
    simp only [step] at h
    split at h
    · cases h
      exact ⟨⟨rfl, rfl⟩, by simp⟩
    · cases h
  | retry =>
    simp only [step, Option.ite_none_right_eq_some] at h
    obtain ⟨-, h⟩ := h
    split at h
    · cases h
      exact ⟨⟨rfl, rfl⟩, by simp⟩
    · cases h
      exact ⟨⟨rfl, rfl⟩, fun n m hm => absurd hm hsend⟩
  | dropReceiver =>
    cases h
    exact ⟨⟨rfl, rfl⟩, by simp⟩

namespace Ffi

/-- A session of a run, by the number of its connection there. -/
abbrev SessionId := Nat × SessionHandle

/-- The end of a session on this side, with the token its dialler presents. -/
def Config.endpoint (cfg : Config) (t : Option TokenBytes) : Endpoint := ⟨⟨cfg.deviceId, cfg.deviceName, []⟩, secs 20, t⟩

namespace PairRun

variable {cfg : Config} {r r' : PairRun} {a : Act} {outs : List (SessionHandle × Output)} {n : SessionHandle} {s : Session}

def Own (cfg : Config) (r : PairRun) : Prop :=
  r.dialer.localId = ⟨cfg.deviceId, cfg.deviceName, []⟩ ∧ r.dialer.keepaliveInterval = secs 20

theorem step_own (ho : r.Own cfg) (h : r.step a = some (r', outs)) : r'.Own cfg := by
  unfold Own at *
  rcases step_task h with ⟨r₀, act, hd, -, ht⟩ | ⟨hd, -⟩
  · obtain ⟨d, os, hstep, rfl⟩ := task_some ht
    obtain ⟨⟨hl, hk⟩, -⟩ := Dialer.step_identity hstep
    rw [foldl_absorb_dialer]
    exact ⟨by rw [hl, hd, ho.1], by rw [hk, hd, ho.2]⟩
  · rw [hd]
    exact ho

/-- A session that was not there before is one of the core's own device. -/
theorem step_new (ho : r.Own cfg) (h : r.step a = some (r', outs)) (hn : (r.conns n).session = none)
    (hs : (r'.conns n).session = some s) : ∃ t, s = .new (cfg.endpoint t).machine := by
  obtain ⟨d, os, m, hd, hm, rfl⟩ := step_opened h hn hs
  obtain ⟨t, rfl⟩ := (Dialer.step_identity hd).2 n m hm
  rw [ho.1, ho.2]
  exact ⟨t, rfl⟩

/-- A handle that is announced is that of a session that was just opened. -/
theorem Move.announces (hm : Move r a r' outs) (h : .connected n ∈ r'.channel) :
    .connected n ∈ r.channel ∨ (r'.conns n).session.isSome = true := by
  cases hm with
  | aside _ _ _ _ hch hes =>
    subst hch
    rcases List.mem_append.mp h with h | h
    · exact Or.inl h
    · have := hes _ h
      cases this
  | established | ended | aborted | drove | lost => exact Or.inl h
  | opened hp =>
    rcases List.mem_append.mp h with h | h
    · exact Or.inl h
    · simp only [List.mem_singleton, DialerEvent.connected.injEq] at h
      subst h
      right
      show ((r.setConn n _).conns n).session.isSome = true
      rw [setConn_self]
      rfl
  | passed | closed =>
    rcases List.mem_append.mp h with h | h
    · exact Or.inl h
    · simp at h

/-- But for the driving tasks, a step puts nothing out, and of the sessions it only opens one. -/
theorem Move.sessions (hm : Move r a r' outs) (hr : r.Sound) (ha : ∀ h b, a ≠ .drive h b) :
    outs = [] ∧ ((r'.conns n).session = (r.conns n).session ∨ (r.conns n).session = none) := by
  cases hm with
  | aside | established | ended | aborted => exact ⟨rfl, Or.inl rfl⟩
  | @opened d t k m hp =>
    refine ⟨rfl, ?_⟩
    by_cases hk : n = k
    · subst hk
      exact Or.inr (hr.unopened n (Or.inr ⟨t, hp⟩)).1
    · exact Or.inl (congrArg Conn.session (setConn_of_ne hk _))
  | passed | closed | lost => exact ⟨rfl, Or.inl (setConn_session rfl)⟩
  | drove => exact absurd rfl (ha _ _)

end PairRun

namespace Core

def session (c : Core) (p : SessionId) : Option Session := ((c.runs p.1).conns p.2).session

def outsOn (p : SessionId) (tr : List Obs) : List Output :=
  tr.filterMap fun
    | .out q h o => if (q, h) = p then some o else none
    | _ => none

variable {cfg : Config} {c c' : Core} {a : Act} {tr os : List Obs} {p : SessionId} {q : Nat} {h : SessionHandle}

theorem outsOn_self (q : Nat) (h : SessionHandle) (outs : List Output) : outsOn (q, h) (outs.map (.out q h)) = outs := by
  unfold outsOn
  rw [List.filterMap_map]
  simp

theorem outsOn_of_ne (hp : (q, h) ≠ p) (outs : List Output) : outsOn p (outs.map (.out q h)) = [] := by
  unfold outsOn
  rw [List.filterMap_map, List.filterMap_eq_nil_iff]
  intro o _
  simp [hp]

/-- What a step is for session `p`: nothing, its opening, a step of its driving task or a clip for it. -/
inductive Part (cfg : Config) (p : SessionId) (c c' : Core) (a : Act) (os : List Obs) : Prop
  | still : c'.session p = c.session p → outsOn p os = [] → (∀ b, a ≠ .run p.1 (.drive p.2 b)) →
      (∀ text clip, a = .sendClipboard text → Clip.new cfg.blake3 mimeTextPlain (utf8 text) = .ok clip →
        c.activeSession ≠ some p) → Part cfg p c c' a os
  | opened (t : Option TokenBytes) : c.session p = none → c'.session p = some (.new (cfg.endpoint t).machine) →
      outsOn p os = [] → (∀ b, a ≠ .run p.1 (.drive p.2 b)) → (∀ text, a ≠ .sendClipboard text) →
      Part cfg p c c' a os
  | drove (b : Session.Act) (s s' : Session) (outs : List Output) : a = .run p.1 (.drive p.2 b) →
      c.session p = some s → s.step b = some (s', outs) → c'.session p = some s' → os = outs.map (.out p.1 p.2) →
      Part cfg p c c' a os
  | queued (text : String) (clip : Clip) : a = .sendClipboard text →
      Clip.new cfg.blake3 mimeTextPlain (utf8 text) = .ok clip → c.activeSession = some p →
      c'.session p = (c.session p).map (·.sendClipboard clip) → outsOn p os = [] → Part cfg p c c' a os

theorem outsOn_nil (ha : ∀ q act, a ≠ .run q act) (h : step cfg c a = some (c', os)) : outsOn p os = [] := by
  have hreport : ∀ k e, outsOn p (report k e) = [] := by
    intro k e
    unfold outsOn report
    cases toCoreEvent e <;> rfl
  cases a with
  | pair decoded endpoint =>
    cases h
    rfl
  | cancel q =>
    simp only [step, Option.ite_none_right_eq_some, Option.some.injEq, Prod.mk.injEq] at h
    obtain ⟨-, -, rfl⟩ := h
    rfl
  | run q act => exact absurd rfl (ha q act)
  | forward q =>
    simp only [step, forward] at h
    split at h
    · split at h <;> cases h
      · rfl
      · exact hreport q _
    · simp only [Option.ite_none_right_eq_some, Option.some.injEq, Prod.mk.injEq] at h
      obtain ⟨-, -, rfl⟩ := h
      rfl
    · cases h
  | load q read =>
    simp only [step] at h
    split at h
    · cases h
      rfl
    · cases h
  | write q o =>
    simp only [step] at h
    split at h
    · split at h <;> cases h
      · exact hreport q _
      · exact hreport q _
      · rfl
    · cases h
  | rename q ok =>
    simp only [step] at h
    split at h
    · split at h
      · split at h <;> cases h
        exact hreport q _
      · cases h
        exact hreport q _
    · cases h
  | sendClipboard text =>
    cases h
    rfl

theorem session_setRun {r : PairRun} (hr : ∀ n, (r.conns n).session = ((c.runs q).conns n).session) (p : SessionId) :
    (c.setRun q r).session p = c.session p := by
  obtain ⟨k, n⟩ := p
  unfold session
  by_cases hk : k = q
  · subst hk
    rw [setRun_self, hr]
  · rw [setRun_of_ne hk]

/-- Calls of other kinds and the forwarders leave the sessions alone. -/
theorem step_sessions (hst : Started c) (ha : ∀ q act, a ≠ .run q act) (hs : ∀ text, a ≠ .sendClipboard text)
    (h : step cfg c a = some (c', os)) : c'.session p = c.session p := by
  cases step_move h with
  | declined => rfl
  | @paired decoded endpoint trust payload os hok =>
    have hidle : c.runs c.started = .idle := hst.idle c.started (Nat.le_refl _)
    exact session_setRun (r := .start cfg payload) (fun n => by rw [hidle]; rfl) p
  | @cancelled q hq => exact session_setRun (r := { c.runs q with cancelled := true }) (fun n => rfl) p
  | ran => exact absurd rfl (ha _ _)
  | @handled q e rest f persisted =>
    exact session_setRun (r := { c.runs q with channel := rest, persisted, forwarder := f }) (fun n => rfl) p
  | @exited q => exact session_setRun (r := { c.runs q with forwarder := .exited }) (fun n => rfl) p
  | @persists a q f => exact session_setRun (r := { c.runs q with forwarder := f }) (fun n => rfl) p
  | queued => exact absurd rfl (hs _)

theorem run_own {C : List Obs → Core → Act → Prop} (h : Run (system cfg) C tr c) :
    ∀ q < c.started, (c.runs q).Own cfg := by
  refine h.invariant (I := fun _ c => ∀ q < c.started, (c.runs q).Own cfg) (fun c h0 q hq => ?_)
    (fun tr c a c' os hr hi _ hs => ?_)
  · obtain ⟨peers, tmp, rfl⟩ := h0
    exact absurd hq (Nat.not_lt_zero q)
  · have hset : ∀ {k : Nat} {r : PairRun}, (k < c.started → r.Own cfg) →
        ∀ q < c.started, ((c.setRun k r).runs q).Own cfg := by
      intro k r hr q hq
      by_cases hk : q = k
      · subst hk
        rw [setRun_self]
        exact hr hq
      · rw [setRun_of_ne hk]
        exact hi q hq
    cases step_move hs with
    | declined => exact hi
    | @paired decoded endpoint trust payload =>
      intro q hq
      by_cases hk : q = c.started
      · subst hk
        show ((c.setRun c.started (.start cfg payload)).runs c.started).Own cfg
        rw [setRun_self]
        exact ⟨rfl, rfl⟩
      · refine hset (r := .start cfg payload) (fun hlt => absurd hlt (Nat.lt_irrefl _)) q ?_
        have hq' : q < c.started + 1 := hq
        omega
    | @cancelled k => exact hset (r := { c.runs k with cancelled := true }) fun hk => hi k hk
    | @ran k act r outs hstep => exact hset fun hk => PairRun.step_own (hi k hk) hstep
    | @handled k e rest f persisted =>
      exact hset (r := { c.runs k with channel := rest, persisted, forwarder := f }) fun hk => hi k hk
    | @exited k => exact hset (r := { c.runs k with forwarder := .exited }) fun hk => hi k hk
    | @persists a k f => exact hset (r := { c.runs k with forwarder := f }) fun hk => hi k hk
    | @queued text clip k n =>
      exact hset (r := (c.runs k).setConn n
        { (c.runs k).conns n with session := ((c.runs k).conns n).session.map (·.sendClipboard clip) }) fun hk => hi k hk

theorem ran_part {act : PairRun.Act} (hst : Started c) (ho : ∀ q < c.started, (c.runs q).Own cfg)
    (hs : ∀ k, (c.runs k).Sound) (h : step cfg c (.run q act) = some (c', os)) (p : SessionId) :
    Part cfg p c c' (.run q act) os := by
  obtain ⟨k, n⟩ := p
  simp only [step] at h
  split at h
  rotate_left
  · cases h
  rename_i r outs hr
  cases h
  by_cases hq : q = k
  · subst hq
    have hlt : q < c.started := by
      refine hst.lt fun hidle => ?_
      rw [hidle, idle_step] at hr
      cases hr
    have hself : (c.setRun q r).session (q, n) = (r.conns n).session := by
      unfold session
      rw [setRun_self]
    by_cases hd : ∃ h b, act = .drive h b
    · obtain ⟨h, b, rfl⟩ := hd
      simp only [PairRun.step] at hr
      split at hr
      · rename_i s hses
        split at hr
        · rename_i s' os' hstep
          cases hr
          rw [List.map_map]
          by_cases hh : h = n
          · subst hh
            refine .drove b s s' os' rfl hses hstep ?_ rfl
            rw [hself, PairRun.setConn_self]
          · refine .still ?_ (outsOn_of_ne (by simp [hh]) os') (by simp [hh]) (by simp)
            rw [hself, PairRun.setConn_of_ne (Ne.symm hh)]
            rfl
        · cases hr
      · cases hr
    · have hne : ∀ h b, act ≠ .drive h b := fun h b hb => hd ⟨h, b, hb⟩
      obtain ⟨hm, -⟩ := PairRun.step_move (hs q).listening hr
      obtain ⟨rfl, hsame⟩ := hm.sessions (n := n) (hs q) hne
      have hact : ∀ b, Act.run q act ≠ .run (q, n).1 (.drive (q, n).2 b) := by
        intro b hb
        cases hb
        exact hne _ _ rfl
      rcases hsame with hsame | hnone
      · exact .still (hself.trans hsame) rfl hact (by simp)
      · cases hses : (r.conns n).session with
        | none => exact .still (hself.trans (hses.trans hnone.symm)) rfl hact (by simp)
        | some s =>
          obtain ⟨t, rfl⟩ := PairRun.step_new (ho q hlt) hr hnone hses
          exact .opened t hnone (hself.trans hses) rfl hact (by simp)
  · refine .still ?_ ?_ (by simp [hq]) (by simp)
    · unfold session
      rw [setRun_of_ne (Ne.symm hq)]
    · unfold outsOn
      rw [List.filterMap_map, List.filterMap_eq_nil_iff]
      intro o _
      simp [hq]

theorem send_part {text : String} (h : step cfg c (.sendClipboard text) = some (c', os)) (p : SessionId) :
    Part cfg p c c' (.sendClipboard text) os := by
  obtain ⟨k, n⟩ := p
  have hout : outsOn (k, n) os = [] := outsOn_nil (by simp) h
  cases hclip : Clip.new cfg.blake3 mimeTextPlain (utf8 text) with
  | error e =>
    simp only [step, sendClipboard, hclip, Option.some.injEq, Prod.mk.injEq] at h
    obtain ⟨rfl, -⟩ := h
    refine .still rfl hout (by simp) fun text' clip ht hc => ?_
    cases ht
    rw [hclip] at hc
    cases hc
  | ok clip =>
    by_cases hactive : c.activeSession = some (k, n)
    · simp only [step, sendClipboard, hclip, hactive, Option.some.injEq, Prod.mk.injEq] at h
      obtain ⟨rfl, -⟩ := h
      refine .queued text clip rfl hclip hactive ?_ hout
      unfold session
      rw [setRun_self, PairRun.setConn_self]
    · refine .still ?_ hout (by simp) (fun _ _ _ _ => hactive)
      simp only [step, sendClipboard, hclip, Option.some.injEq, Prod.mk.injEq] at h
      obtain ⟨rfl, -⟩ := h
      cases hslot : c.activeSession with
      | none => rfl
      | some x =>
        obtain ⟨q, m⟩ := x
        unfold session
        by_cases hq : k = q
        · subst hq
          have hm : n ≠ m := by
            rintro rfl
            exact hactive hslot
          show (((c.setRun k _).runs k).conns n).session = _
          rw [setRun_self, PairRun.setConn_of_ne hm]
        · show (((c.setRun q _).runs k).conns n).session = _
          rw [setRun_of_ne hq]

theorem step_part (hst : Started c) (ho : ∀ q < c.started, (c.runs q).Own cfg) (hs : ∀ k, (c.runs k).Sound)
    (h : step cfg c a = some (c', os)) (p : SessionId) : Part cfg p c c' a os := by
  by_cases hrun : ∃ q act, a = .run q act
  · obtain ⟨q, act, rfl⟩ := hrun
    exact ran_part hst ho hs h p
  · by_cases hsend : ∃ text, a = .sendClipboard text
    · obtain ⟨text, rfl⟩ := hsend
      exact send_part h p
    · have ha : ∀ q act, a ≠ .run q act := fun q act hact => hrun ⟨q, act, hact⟩
      have hne : ∀ text, a ≠ .sendClipboard text := fun text ht => hsend ⟨text, ht⟩
      exact .still (step_sessions hst ha hne h) (outsOn_nil ha h) (fun b => ha _ _) fun text clip ht => absurd ht (hne text)

/-! ## The slot -/

/-- The handle in the slot, and those that are announced, are handles of sessions. -/
structure Opened (c : Core) : Prop where
  slot : ∀ p, c.activeSession = some p → (c.session p).isSome = true
  announced : ∀ q n, .connected n ∈ (c.runs q).channel → (c.session (q, n)).isSome = true

theorem Part.isSome (hp : Part cfg p c c' a os) (hs : (c.session p).isSome = true) : (c'.session p).isSome = true := by
  cases hp with
  | still h => rwa [h]
  | opened t h h' =>
    rw [h']
    rfl
  | drove b s s' outs _ _ _ h =>
    rw [h]
    rfl
  | queued text clip _ _ _ h =>
    rw [h, Option.isSome_map]
    exact hs

theorem Opened.step (hi : Opened c) (hst : Started c) (ho : ∀ q < c.started, (c.runs q).Own cfg)
    (hs : ∀ k, (c.runs k).Sound) (h : Core.step cfg c a = some (c', os)) : Opened c' := by
  have hkept : ∀ p, (c.session p).isSome = true → (c'.session p).isSome = true :=
    fun p => (step_part hst ho hs h p).isSome
  -- all but `forward` and `run` leave the slot and the channels as they are
  have hsame : c'.activeSession = c.activeSession → (∀ k, (c'.runs k).channel = (c.runs k).channel) → Opened c' := by
    intro hslot hch
    refine ⟨fun p hp => hkept p (hi.slot p (hslot ▸ hp)), fun q n hn => ?_⟩
    rw [hch] at hn
    exact hkept _ (hi.announced q n hn)
  have hset : ∀ {q : Nat} {r : PairRun}, r.channel = (c.runs q).channel →
      ∀ k, ((c.setRun q r).runs k).channel = (c.runs k).channel := by
    intro q r hr k
    by_cases hk : k = q
    · subst hk
      rw [setRun_self, hr]
    · rw [setRun_of_ne hk]
  cases step_move h with
  | declined => exact hsame rfl fun _ => rfl
  | @paired decoded endpoint trust payload =>
    have hidle : c.runs c.started = .idle := hst.idle c.started (Nat.le_refl _)
    exact hsame rfl (hset (r := .start cfg payload) (by rw [hidle]; rfl))
  | @cancelled q => exact hsame rfl (hset (r := { c.runs q with cancelled := true }) rfl)
  | @exited q => exact hsame rfl (hset (r := { c.runs q with forwarder := .exited }) rfl)
  | @persists a q f => exact hsame rfl (hset (r := { c.runs q with forwarder := f }) rfl)
  | @queued text clip q n =>
    exact hsame rfl (hset (r := (c.runs q).setConn n
      { (c.runs q).conns n with session := ((c.runs q).conns n).session.map (·.sendClipboard clip) }) rfl)
  | @ran q act r outs hr =>
    refine ⟨fun p hp => hkept p (hi.slot p hp), fun k n hn => ?_⟩
    by_cases hk : k = q
    · subst hk
      rw [setRun_self] at hn
      rcases (PairRun.step_move (hs k).listening hr).1.announces hn with hn | hn
      · exact hkept _ (hi.announced k n hn)
      · unfold session
        rw [setRun_self]
        exact hn
    · rw [setRun_of_ne hk] at hn
      exact hkept _ (hi.announced k n hn)
  | @handled q e rest f persisted os hf hc =>
    have hmem : ∀ n, .connected n ∈ e :: rest → (c.session (q, n)).isSome = true := by
      intro n hn
      exact hi.announced q n (by rw [hc]; exact hn)
    refine ⟨fun p hp => ?_, fun k n hn => ?_⟩
    · have hp' : c.slotAfter q e = some p := hp
      unfold slotAfter at hp'
      split at hp'
      · cases hp'
        exact hkept _ (hmem _ List.mem_cons_self)
      · cases hp'
      · exact hkept p (hi.slot p hp')
    · by_cases hk : k = q
      · subst hk
        rw [setRun_self] at hn
        exact hkept _ (hmem n (List.mem_cons_of_mem e hn))
      · rw [setRun_of_ne hk] at hn
        exact hkept _ (hi.announced k n hn)

theorem run_opened {C : List Obs → Core → Act → Prop} (h : Run (system cfg) C tr c) : Opened c := by
  refine h.invariant (I := fun _ c => Opened c) (fun c h0 => ?_)
    (fun tr c a c' os hr hi _ hs => hi.step (run_started hr) (run_own hr) (run_sound hr) hs)
  obtain ⟨peers, tmp, rfl⟩ := h0
  exact ⟨fun p hp => (by cases hp), fun q n hn => absurd hn List.not_mem_nil⟩

end Core

end Ffi

end PenguinSync
