import PenguinSync.Ffi.Moves

/-!
# Whose session `send_clipboard` reaches

What a forwarder has been told of follows what its dial task does; the slot
follows the forwarders. So once every event is handled the slot holds the
session the latest run drains, provided no earlier run gets in between.
-/

namespace PenguinSync

open Lts

namespace Ffi

namespace PairRun

variable {r r' : PairRun} {a : Act} {outs : List (SessionHandle × Output)} {p : Option SessionHandle}

/-- What the forwarder is going to be told of is the session that is drained. -/
def Follows (r : PairRun) (p : Option SessionHandle) : Prop := follow p r.channel = drained r.dialer.pc

theorem Move.follows (h : Move r a r' outs) (hr : r.Sound) (ha : a = .abort → drained r.dialer.pc = none)
    (hf : r.Follows p) : r'.Follows p := by
  unfold Follows at *
  cases h with
  | aside _ hd hh hc hch hes =>
    rw [hch, follow_append, follow_unmarked hes, hf, hd, drained_of_held hh]
  | established hp hd hc =>
    rw [hp] at hf
    rw [hd]
    exact hf
  | @opened d t n m hp hd hc =>
    rw [hd, follow_append]
    rfl
  | @passed d n e rest hp he hne hd hc =>
    have hm : marks (.session e) = false := by
      cases e with
      | closed reason => cases hne
      | _ => rfl
    rw [hd, follow_append, hf, hp, follow_cons, track_unmarked hm]
    rfl
  | @closed d n e rest hp he hcl hd hc =>
    rw [hd, follow_append]
    cases e with
    | closed reason => rfl
    | _ => cases hcl
  | @ended d n hp he hnd hd hc => exact absurd (hr.drives hp he) hnd
  | @aborted d n hcan hp hd hc =>
    have hn := ha rfl
    rw [hp] at hn
    cases hn
  | drove => exact hf
  | lost => exact hf

/-- Only an opening makes a run drain a session it was not draining. -/
theorem Move.drained (h : Move r a r' outs) (ha : a ≠ .openBi true) (hd : drained r.dialer.pc = none) :
    drained r'.dialer.pc = none := by
  cases h with
  | aside _ _ hh => exact drained_of_held hh
  | established _ hpc => rw [hpc]; rfl
  | opened => exact absurd rfl ha
  | passed hp => rw [hp] at hd; cases hd
  | closed hp => rw [hp] at hd; cases hd
  | ended hp => rw [hp] at hd; cases hd
  | aborted _ hp => rw [hp] at hd; cases hd
  | drove => exact hd
  | lost => exact hd

theorem Move.session {h : SessionHandle} {s : Session} (hm : Move r a r' outs) (hr : r.Sound)
    (hs : (r.conns h).session = some s) :
    (r'.conns h).session = some s ∨
      ∃ act s' os, s.step act = some (s', os) ∧ (r'.conns h).session = some s' ∧ outs = os.map (h, ·) := by
  have hset : ∀ n (c : Conn), c.session = (r.conns n).session → ((r.setConn n c).conns h).session = some s := by
    intro n c hc
    by_cases hn : h = n
    · subst hn
      rw [setConn_self, hc]
      exact hs
    · rw [setConn_of_ne hn]
      exact hs
  cases hm with
  | aside => exact Or.inl hs
  | established => exact Or.inl hs
  | @opened d t n m hp =>
    by_cases hn : h = n
    · subst hn
      have hnone := (hr.unopened h (Or.inr ⟨t, hp⟩)).1
      rw [hs] at hnone
      cases hnone
    · left
      show ((r.setConn n _).conns h).session = some s
      rw [setConn_of_ne hn]
      exact hs
  | passed => exact Or.inl (hset _ _ rfl)
  | closed => exact Or.inl (hset _ _ rfl)
  | ended => exact Or.inl hs
  | aborted => exact Or.inl hs
  | @drove n a t t' os ht hstep =>
    by_cases hn : h = n
    · subst hn
      obtain rfl := Option.some.inj (ht.symm.trans hs)
      exact Or.inr ⟨a, t', os, hstep, by rw [setConn_self], rfl⟩
    · left
      rw [setConn_of_ne hn]
      exact hs
  | lost => exact Or.inl (hset _ _ rfl)

end PairRun

namespace Core

variable {cfg : Config} {c c' : Core} {q k : Nat} {h : SessionHandle} {a : Act} {tr os : List Obs} {text : String}

/-! ## What is asked of a run -/

/-- A run is the latest as long as no later call of `pair` started one. No run
is started or gets a session while another one has a session or is later, none
is aborted while it drains one, and what an earlier run left behind is not
handled while the slot holds the session of a later one. -/
def Orderly (cfg : Config) (c : Core) : Act → Prop
  | .pair decoded endpoint =>
    (∃ n, (c.pair cfg decoded endpoint).2 = .ok n) → ∀ q, drained (c.runs q).dialer.pc = none
  | .run q (.openBi true) => q + 1 = c.started
  | .run q .abort => drained (c.runs q).dialer.pc = none
  | .forward q => ∀ e rest k h, (c.runs q).channel = e :: rest → marks e = true → c.activeSession = some (k, h) →
      q < k → (c.runs k).dialer.pc ≠ .draining h
  | _ => True

def Settled (c : Core) : Prop :=
  ∀ q, (c.runs q).channel = [] ∧ ((c.runs q).forwarder = .recv ∨ (c.runs q).forwarder = .exited)

def Up (r : PairRun) (h : SessionHandle) : Prop :=
  ∃ s ∈ (r.conns h).session, s.machine.phase = .ready ∧ s.stage ≠ .done

/-- The latest run is not between a session's opening and its handshake, nor
between its end, or `cancel`, and the dial task's part in it. -/
def Steady (c : Core) : Prop :=
  ∀ q h, q + 1 = c.started → (c.runs q).dialer.pc = .draining h → (c.runs q).cancelled = false ∧ Up (c.runs q) h

/-- The latest run was not cancelled and has a session that is past its handshake and not closed. -/
def Reaches (c : Core) (q : Nat) (h : SessionHandle) : Prop :=
  q + 1 = c.started ∧ (c.runs q).cancelled = false ∧ (c.runs q).dialer.pc = .draining h ∧ Up (c.runs q) h

/-- The driving task of the session turns to its stream or to its queue, and its writes succeed. -/
def Serves (q : Nat) (h : SessionHandle) (a : Act) : Prop :=
  a = .run q (.drive h (.start true)) ∨ a = .run q (.drive h (.command true))

/-- The clip is queued for the driving task of the session. Whatever else goes on, as
long as the task is there it has written the clip or can go on to write it, by
steps of its own, and has written it by the time it has emptied its queue. -/
def Writes (cfg : Config) (c : Core) (q : Nat) (h : SessionHandle) (clip : Clip) : Prop :=
  (∃ s, ((c.runs q).conns h).session = some s ∧ s.stage ≠ .done ∧ clip ∈ s.commands) ∧
    ∀ tr c', Path (system cfg) always [] c tr c' → ∀ s, ((c'.runs q).conns h).session = some s → s.stage ≠ .done →
      (s.commands = [] → .out q h (.sent (.clipboard clip)) ∈ tr) ∧
        ∃ tr' c'', Path (system cfg) (fun _ _ a => Serves q h a) tr c' tr' c'' ∧
          .out q h (.sent (.clipboard clip)) ∈ tr'

/-- `send_clipboard` says whether it reaches the latest run's session, and then does. -/
def Truthful (cfg : Config) (c : Core) (text : String) : Prop :=
  let clip : Clip := ⟨mimeTextPlain, utf8 text, cfg.blake3 (utf8 text)⟩
  let o := c.sendClipboard cfg text
  (o.2 = .ok () ∨ o.2 = .error .notConnected) ∧ (o.2 = .ok () ↔ ∃ q h, c.Reaches q h) ∧
    ∀ q h, c.Reaches q h → o.1.Writes cfg q h clip

/-! ## The slot follows the latest run -/

structure SlotInv (c : Core) : Prop where
  follows : ∀ q, (c.runs q).Follows (c.own q)
  stale : ∀ q, q + 1 < c.started → drained (c.runs q).dialer.pc = none

theorem SlotInv.keep {r : PairRun} (hi : SlotInv c) (hs : c'.activeSession = c.activeSession)
    (hn : c'.started = c.started) (hr : c'.runs = Function.update c.runs q r)
    (hch : r.channel = (c.runs q).channel) (hd : r.dialer = (c.runs q).dialer) : SlotInv c' := by
  have hrun : ∀ k, (c'.runs k).channel = (c.runs k).channel ∧ (c'.runs k).dialer = (c.runs k).dialer := by
    intro k
    rw [hr]
    by_cases hk : k = q
    · subst hk
      rw [Function.update_self]
      exact ⟨hch, hd⟩
    · rw [Function.update_of_ne hk]
      exact ⟨rfl, rfl⟩
  refine ⟨fun k => ?_, fun k hk => ?_⟩
  · have hf := hi.follows k
    unfold PairRun.Follows at *
    rw [(hrun k).1, (hrun k).2, own_congr hs]
    exact hf
  · rw [(hrun k).2]
    exact hi.stale k (hn ▸ hk)

theorem SlotInv.step (hi : SlotInv c) (hst : Started c) (hs : ∀ k, (c.runs k).Sound) (ho : c.Orderly cfg a)
    (h : step cfg c a = some (c', os)) : SlotInv c' := by
  cases step_move h with
  | declined => exact ⟨hi.follows, hi.stale⟩
  | @paired decoded endpoint trust payload os hp =>
    have hdr := ho ⟨_, hp⟩
    refine ⟨fun k => ?_, fun k hk => ?_⟩
    · by_cases hk : k = c.started
      · subst hk
        have hf := hi.follows c.started
        rw [hst.idle _ (Nat.le_refl _)] at hf
        have hown : c.own c.started = none := hf
        have hrun : (c.setRun c.started (.start cfg payload)).runs c.started = .start cfg payload := setRun_self ..
        show PairRun.Follows ((c.setRun c.started (.start cfg payload)).runs c.started) (c.own c.started)
        rw [hrun, hown]
        rfl
      · have hrun : (c.setRun c.started (.start cfg payload)).runs k = c.runs k := setRun_of_ne hk _
        show PairRun.Follows ((c.setRun c.started (.start cfg payload)).runs k) (c.own k)
        rw [hrun]
        exact hi.follows k
    · have hlt : k < c.started := Nat.lt_of_succ_lt_succ hk
      show drained ((c.setRun c.started (.start cfg payload)).runs k).dialer.pc = none
      rw [setRun_of_ne (Nat.ne_of_lt hlt)]
      exact hdr k
  | cancelled => exact hi.keep rfl rfl rfl rfl rfl
  | @ran q a r outs hr =>
    obtain ⟨hm, -⟩ := PairRun.step_move (hs q).listening hr
    refine ⟨fun k => ?_, fun k hk => ?_⟩
    · by_cases hkq : k = q
      · subst hkq
        rw [setRun_self]
        exact hm.follows (hs k) (fun ha => by subst ha; exact ho) (hi.follows k)
      · rw [setRun_of_ne hkq]
        exact hi.follows k
    · by_cases hkq : k = q
      · subst hkq
        rw [setRun_self]
        refine hm.drained (fun ha => ?_) (hi.stale k hk)
        subst ha
        exact absurd ho (Nat.ne_of_lt hk)
      · rw [setRun_of_ne hkq]
        exact hi.stale k hk
  | @handled q e rest f persisted os hfw hch hne =>
    have hq : q < c.started := hst.lt fun hidle => by
      rw [hidle] at hch
      cases hch
    have hslot : ∀ r, ({ c with activeSession := c.slotAfter q e }.setRun q r).activeSession = c.slotAfter q e :=
      fun _ => rfl
    refine ⟨fun k => ?_, fun k hk => ?_⟩
    · by_cases hkq : k = q
      · subst hkq
        have hf := hi.follows k
        unfold PairRun.Follows at *
        rw [hch, follow_cons] at hf
        rw [own_after (hslot _), setRun_self]
        exact hf
      · have hf := hi.follows k
        unfold PairRun.Follows at *
        rw [setRun_of_ne hkq]
        rcases own_after_of_ne (hslot _) hkq with ⟨hown, -⟩ | ⟨hown, hmark⟩
        · rw [hown]
          exact hf
        · rw [hown]
          rcases follow_start (c.own k) (c.runs k).channel with ⟨hp, hnone⟩ | heq
          · rw [hp] at hf
            show follow none (c.runs k).channel = drained (c.runs k).dialer.pc
            rw [hnone, ← hf]
            cases hown' : c.own k with
            | none => rfl
            | some n =>
              exfalso
              rw [hown'] at hf
              have hdr := drained_iff.mp hf.symm
              rcases Nat.lt_or_gt_of_ne hkq with hlt | hgt
              · have hnone := hi.stale k (by omega)
                rw [← hf] at hnone
                cases hnone
              · exact ho e rest k n hch hmark (own_some.mp hown') hgt hdr
          · rw [← heq]
            exact hf
    · by_cases hkq : k = q
      · subst hkq
        rw [setRun_self]
        exact hi.stale k hk
      · rw [setRun_of_ne hkq]
        exact hi.stale k hk
  | exited => exact hi.keep rfl rfl rfl rfl rfl
  | @persists a q => exact hi.keep (q := q) rfl rfl rfl rfl rfl
  | queued => exact hi.keep rfl rfl rfl rfl rfl

theorem run_slotInv (h : Run (system cfg) (fun _ c a => c.Orderly cfg a) tr c) : SlotInv c := by
  induction h with
  | init h0 =>
    obtain ⟨peers, tmp, rfl⟩ := h0
    exact ⟨fun _ => rfl, nofun⟩
  | step hr ho hs ih => exact ih.step (run_started hr) (run_sound hr) ho hs

/-! ## What becomes of a queued clip -/

/-- As long as its driving task is there, a ready session still has the clip or has written it. -/
structure Pending (q : Nat) (h : SessionHandle) (clip : Clip) (tr : List Obs) (c : Core) : Prop where
  sound : ∀ k, (c.runs k).Sound
  started : q < c.started
  kept : ∃ s, ((c.runs q).conns h).session = some s ∧
    (s.stage ≠ .done → s.machine.phase = .ready ∧
      (clip ∈ s.commands ∨ .out q h (.sent (.clipboard clip)) ∈ tr))

theorem Pending.step {clip : Clip} (hi : Pending q h clip tr c) (hstep : step cfg c a = some (c', os)) :
    Pending q h clip (tr ++ os) c' := by
  obtain ⟨hsound, hq, s, hs, hk⟩ := hi
  have hmove := step_move hstep
  have hsound' := hmove.sound hsound
  have hmono : clip ∈ s.commands ∨ .out q h (.sent (.clipboard clip)) ∈ tr →
      clip ∈ s.commands ∨ .out q h (.sent (.clipboard clip)) ∈ tr ++ os :=
    Or.imp_right (List.mem_append_left os)
  have hsame : ((c'.runs q).conns h).session = some s → c.started ≤ c'.started → Pending q h clip (tr ++ os) c' := by
    intro hs' hn
    exact ⟨hsound', Nat.lt_of_lt_of_le hq hn, s, hs', fun hd => ⟨(hk hd).1, hmono (hk hd).2⟩⟩
  have hset : ∀ k r, (r.conns h).session = ((c.runs k).conns h).session →
      ((Function.update c.runs k r q).conns h).session = some s := by
    intro k r hr
    by_cases hkq : q = k
    · subst hkq
      rw [Function.update_self, hr]
      exact hs
    · rw [Function.update_of_ne hkq]
      exact hs
  cases hmove with
  | declined => exact hsame hs (Nat.le_refl _)
  | @paired decoded endpoint trust payload os hp =>
    refine hsame ?_ (Nat.le_succ _)
    show (((c.setRun c.started (.start cfg payload)).runs q).conns h).session = some s
    rw [setRun_of_ne (Nat.ne_of_lt hq)]
    exact hs
  | @cancelled k hk => exact hsame (hset _ _ rfl) (Nat.le_refl _)
  | @handled k => exact hsame (hset _ _ rfl) (Nat.le_refl _)
  | @exited k => exact hsame (hset _ _ rfl) (Nat.le_refl _)
  | @persists _ k => exact hsame (hset _ _ rfl) (Nat.le_refl _)
  | @ran k act r outs hr =>
    by_cases hkq : q = k
    · subst hkq
      obtain ⟨hm, -⟩ := PairRun.step_move (hsound q).listening hr
      have hrun : (c.setRun q r).runs q = r := setRun_self ..
      rcases hm.session (hsound q) hs with hs' | ⟨sact, s', souts, hss, hs', rfl⟩
      · refine hsame ?_ (Nat.le_refl _)
        rw [hrun]
        exact hs'
      · refine ⟨hsound', hq, s', by rw [hrun]; exact hs', fun hd => ?_⟩
        obtain ⟨hready, hclip⟩ := hk (Session.step_closedLast hss).1
        obtain ⟨hready', hcmd⟩ := Session.step_queue hss hready
        refine ⟨hready', ?_⟩
        rcases hclip with hclip | hclip
        · rcases hcmd with hcmd | ⟨x, hcmd, hsent⟩
          · rw [hcmd]
            exact Or.inl hclip
          · rw [hcmd] at hclip
            rcases List.mem_cons.mp hclip with rfl | hclip
            · right
              apply List.mem_append_right
              rw [List.map_map]
              exact List.mem_map_of_mem (hsent hd)
            · exact Or.inl hclip
        · exact Or.inr (List.mem_append_left _ hclip)
    · refine hsame ?_ (Nat.le_refl _)
      rw [setRun_of_ne hkq]
      exact hs
  | @queued text x k n hclip hslot =>
    by_cases hkq : q = k
    · subst hkq
      by_cases hn : h = n
      · subst hn
        refine ⟨hsound', hq, s.sendClipboard x, ?_, fun hd => ?_⟩
        · rw [setRun_self, PairRun.setConn_self, hs]
          rfl
        · rw [Session.sendClipboard_stage] at hd
          rw [Session.sendClipboard_machine]
          refine ⟨(hk hd).1, (hk hd).2.imp (fun hm => ?_) (List.mem_append_left _)⟩
          unfold Session.sendClipboard
          rw [if_neg hd]
          exact List.mem_append_left _ hm
      · refine hsame ?_ (Nat.le_refl _)
        rw [setRun_self, PairRun.setConn_of_ne hn]
        exact hs
    · refine hsame ?_ (Nat.le_refl _)
      rw [setRun_of_ne hkq]
      exact hs

variable (cfg) in
theorem drive_step {s s' : Session} {b : Session.Act} {outs : List Output}
    (hs : ((c.runs q).conns h).session = some s) (hb : s.step b = some (s', outs)) :
    ∃ c', step cfg c (.run q (.drive h b)) = some (c', outs.map (.out q h)) ∧
      ((c'.runs q).conns h).session = some s' := by
  simp only [step, PairRun.step, hs, hb]
  refine ⟨_, by rw [List.map_map]; rfl, ?_⟩
  rw [setRun_self, PairRun.setConn_self]

/-- The clips in front of it are written first. -/
theorem path_written {clip : Clip} {rest : List Clip} : ∀ (front : List Clip) (tr : List Obs) (c : Core) (s : Session),
    ((c.runs q).conns h).session = some s → s.stage = .loop → s.machine.phase = .ready →
    s.commands = front ++ clip :: rest → ∃ tr' c', Path (system cfg) (fun _ _ a => Serves q h a) tr c tr' c' ∧
      .out q h (.sent (.clipboard clip)) ∈ tr'
  | [], tr, c, s, hs, hl, hr, hc => by
    obtain ⟨c', hstep, -⟩ := drive_step cfg hs (Session.step_command hl hr hc)
    exact ⟨_, c', .step .refl (Or.inr rfl) hstep, List.mem_append_right _ (List.mem_singleton_self _)⟩
  | x :: front, tr, c, s, hs, hl, hr, hc => by
    obtain ⟨c', hstep, hs'⟩ := drive_step cfg hs (Session.step_command hl hr hc)
    obtain ⟨tr', c'', hp, hm⟩ := path_written front _ c' _ hs' hl hr rfl
    exact ⟨tr', c'', Lts.Path.trans (.step .refl (Or.inr rfl) hstep) hp, hm⟩

/-- The driving task can go on until the clip is written. -/
theorem Pending.served {clip : Clip} (hi : Pending q h clip tr c) {s : Session}
    (hs : ((c.runs q).conns h).session = some s) (hd : s.stage ≠ .done) :
    ∃ tr' c', Path (system cfg) (fun _ _ a => Serves q h a) tr c tr' c' ∧ .out q h (.sent (.clipboard clip)) ∈ tr' := by
  obtain ⟨s', hs', hk⟩ := hi.kept
  obtain rfl := Option.some.inj (hs'.symm.trans hs)
  obtain ⟨hready, hclip | hsent⟩ := hk hd
  · obtain ⟨front, rest, hc⟩ := List.append_of_mem hclip
    cases hst : s'.stage with
    | start =>
      obtain ⟨c', hstep, hses⟩ := drive_step cfg hs (Session.step_start hst)
      obtain ⟨tr', c'', hp, hm⟩ := path_written front _ c' _ hses rfl hready hc
      exact ⟨tr', c'', Lts.Path.trans (.step .refl (Or.inl rfl) hstep) hp, hm⟩
    | loop => exact path_written front tr c s' hs hst hready hc
    | done => exact absurd hst hd
  · exact ⟨tr, c, .refl, hsent⟩

theorem Pending.writes {clip : Clip} (hi : Pending q h clip [] c)
    (hu : ∃ s, ((c.runs q).conns h).session = some s ∧ s.stage ≠ .done ∧ clip ∈ s.commands) :
    c.Writes cfg q h clip := by
  refine ⟨hu, fun tr c' hp s hs hd => ?_⟩
  have hi' : Pending q h clip tr c' := hp.invariant (I := Pending q h clip) hi fun _ _ _ _ _ hi _ hs => hi.step hs
  refine ⟨fun hempty => ?_, hi'.served hs hd⟩
  obtain ⟨s', hs', hk⟩ := hi'.kept
  obtain rfl := Option.some.inj (hs'.symm.trans hs)
  rcases (hk hd).2 with hm | hm
  · rw [hempty] at hm
    cases hm
  · exact hm

/-- A clip queued for a session that is up is written. -/
theorem queued_writes {clip : Clip} {s : Session} (hsound : ∀ k, (c.runs k).Sound) (hq : q < c.started)
    (hclip : Clip.new cfg.blake3 mimeTextPlain (utf8 text) = .ok clip) (hslot : c.activeSession = some (q, h))
    (hs : ((c.runs q).conns h).session = some s) (hready : s.machine.phase = .ready) (hd : s.stage ≠ .done) :
    (c.setRun q ((c.runs q).setConn h { (c.runs q).conns h with
      session := ((c.runs q).conns h).session.map (·.sendClipboard clip) })).Writes cfg q h clip := by
  have hmem : clip ∈ (s.sendClipboard clip).commands := by
    unfold Session.sendClipboard
    rw [if_neg hd]
    exact List.mem_append_right _ (List.mem_singleton_self _)
  have hstage : (s.sendClipboard clip).stage ≠ .done := by
    rw [Session.sendClipboard_stage]
    exact hd
  have hs' : (((c.setRun q ((c.runs q).setConn h { (c.runs q).conns h with
      session := ((c.runs q).conns h).session.map (·.sendClipboard clip) })).runs q).conns h).session =
      some (s.sendClipboard clip) := by
    rw [setRun_self, PairRun.setConn_self, hs]
    rfl
  refine Pending.writes ⟨?_, hq, _, hs', fun _ => ⟨?_, Or.inl hmem⟩⟩ ⟨_, hs', hstage, hmem⟩
  · exact (Move.queued hclip hslot).sound hsound
  · rw [Session.sendClipboard_machine]
    exact hready

/-! ## When `send_clipboard` is truthful -/

theorem sendClipboard_ok {clip : Clip} (hclip : Clip.new cfg.blake3 mimeTextPlain (utf8 text) = .ok clip)
    (hs : c.activeSession = some (q, h)) :
    c.sendClipboard cfg text =
      (c.setRun q ((c.runs q).setConn h
        { (c.runs q).conns h with session := ((c.runs q).conns h).session.map (·.sendClipboard clip) }), .ok ()) := by
  simp only [sendClipboard, hclip, hs]

theorem sendClipboard_none {clip : Clip} (hclip : Clip.new cfg.blake3 mimeTextPlain (utf8 text) = .ok clip)
    (hs : c.activeSession = none) : c.sendClipboard cfg text = (c, .error .notConnected) := by
  simp only [sendClipboard, hclip, hs]

/-- With every event handled the slot holds what the runs drain, and only the latest drains a session. -/
theorem SlotInv.slot (hi : SlotInv c) (hst : Started c) (hs : c.Settled) (q : Nat) (h : SessionHandle) :
    c.activeSession = some (q, h) ↔ q + 1 = c.started ∧ (c.runs q).dialer.pc = .draining h := by
  have hf := hi.follows q
  unfold PairRun.Follows at hf
  rw [(hs q).1] at hf
  have hown : c.own q = drained (c.runs q).dialer.pc := hf
  rw [← own_some, hown, drained_iff]
  constructor
  · intro hp
    refine ⟨?_, hp⟩
    have hq : q < c.started := hst.lt fun hidle => by
      rw [hidle] at hp
      cases hp
    by_contra hne
    have hnone := hi.stale q (by omega)
    rw [hp] at hnone
    cases hnone
  · exact And.right

/-- A check that implies `Orderly`, for any action but `pair`. -/
def orderly (c : Core) : Act → Bool
  | .pair _ _ => false
  | .run q (.openBi true) => q + 1 = c.started
  | .run q .abort => drained (c.runs q).dialer.pc = none
  | .forward q => ∀ x ∈ c.activeSession, x.1 ≤ q
  | _ => true

theorem orderly_sound (h : c.orderly a = true) : c.Orderly cfg a := by
  unfold orderly at h
  unfold Orderly
  split at h
  · cases h
  · simpa using h
  · simpa using h
  · intro e rest k n _ _ hs hlt
    have := (decide_eq_true_iff.mp h) (k, n) hs
    exact absurd hlt (Nat.not_lt.mpr this)
  · trivial

instance (r : PairRun) (h : SessionHandle) : Decidable (Up r h) :=
  inferInstanceAs (Decidable (∃ s ∈ (r.conns h).session, _ ∧ _))

def connects : List Act :=
  [.run 0 (.dial true), .run 0 (.connect true), .run 0 (.openBi true), .run 0 (.drive 0 (.start true)),
    .run 0 (.drive 0 (.receive (encode (.handshake hello)) 0 0 true)), .run 0 .drain, .forward 0, .forward 0,
    .load 0 true, .write 0 .whole, .rename 0 true]

theorem connects_enabled : (exec (system phone) (fun _ => orderly) [.paired (.ok 0)] paired connects).isSome = true := by
  decide +kernel

theorem paired_run : Run (system phone) (fun _ c a => c.Orderly phone a) [.paired (.ok 0)] paired := by
  have h0 : Run (system phone) (fun _ c a => c.Orderly phone a) [] (new none none) := .init ⟨none, none, rfl⟩
  have ho : (new none none).Orderly phone (.pair (.ok desk) (.ok ())) := fun _ _ => rfl
  exact .step h0 ho rfl

theorem Started.settled (hi : Started c) (h : ∀ q < c.started,
    (c.runs q).channel = [] ∧ ((c.runs q).forwarder = .recv ∨ (c.runs q).forwarder = .exited)) : c.Settled := by
  intro q
  by_cases hq : q < c.started
  · exact h q hq
  · rw [hi.idle q (Nat.le_of_not_lt hq)]
    exact ⟨rfl, Or.inr rfl⟩

theorem steady_of (h : ∀ q < c.started, q + 1 = c.started → ∀ h ∈ drained (c.runs q).dialer.pc,
    (c.runs q).cancelled = false ∧ Up (c.runs q) h) : c.Steady := by
  intro q n hq hp
  exact h q (by omega) hq n (drained_iff.mpr hp)

theorem not_reaches (h : ∀ q < c.started, ∀ h ∈ drained (c.runs q).dialer.pc, ¬ Up (c.runs q) h) :
    ¬ ∃ q h, c.Reaches q h := by
  rintro ⟨q, n, hq, -, hp, hu⟩
  exact h q (by omega) n (drained_iff.mpr hp) hu

/-- The connection is up and the forwarder has put it into the slot, but the
desk has not answered the handshake. -/
def greets : List Act :=
  [.run 0 (.dial true), .run 0 (.connect true), .run 0 (.openBi true), .run 0 (.drive 0 (.start true)), .forward 0]

theorem greets_enabled : (exec (system phone) (fun _ => orderly) [.paired (.ok 0)] paired greets).isSome = true := by
  decide +kernel

end Core

end Ffi

end PenguinSync
