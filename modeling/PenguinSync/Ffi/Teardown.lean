import PenguinSync.Ffi.Moves

/-!
# What a cancelled run leaves behind

A connection stays open until someone closes it or nobody holds it: the dial
task, its driving task, the handle on its way to the forwarder and the one in
the slot all hold it.
-/

namespace PenguinSync

open Lts

namespace Ffi

namespace PairRun

variable {r r' : PairRun} {a : Act} {outs : List (SessionHandle × Output)} {p : Option SessionHandle}
  {h : SessionHandle}

def Handed (r : PairRun) (p : Option SessionHandle) (h : SessionHandle) : Prop :=
  p = some h ∨ .connected h ∈ r.channel

def Open (r : PairRun) (p : Option SessionHandle) (h : SessionHandle) : Prop :=
  h < r.dialer.connections ∧ (r.conns h).closed = false ∧ (held r.dialer.pc = some h ∨ r.drives h ∨ r.Handed p h)

/-- What is asked of the steps of the run itself: it is not aborted while it
drains a session whose driving task is there or whose connection is not closed,
and it makes no connection while the handle of one that is not closed is still
in the channel or in the slot. -/
def Tidy (r : PairRun) (p : Option SessionHandle) : Act → Prop
  | .abort => ∀ h, r.dialer.pc = .draining h → ¬ r.drives h ∧ (r.conns h).closed = true
  | .connect true => r.cancelled = false → ∀ h, r.Handed p h → (r.conns h).closed = true
  | _ => True

/-- `driven`: only a drained session has its driving task. `left`: what the
forwarder is going to leave in the slot is drained or closed. `old`: no handle
of an earlier connection is about, unless it is closed. -/
structure TidyInv (r : PairRun) (p : Option SessionHandle) : Prop where
  driven : ∀ h, r.drives h → r.dialer.pc = .draining h
  left : ∀ h, follow p r.channel = some h → r.dialer.pc = .draining h ∨ (r.conns h).closed = true
  done : r.forwarder = .exited → r.channel = [] ∧ r.dialer.pc = .gone
  old : r.cancelled = false → ∀ h, h + 1 < r.dialer.connections → r.Handed p h → (r.conns h).closed = true

theorem setConn_closed {n : SessionHandle} {c : Conn} (hcl : (r.conns n).closed = true → c.closed = true)
    (hc : (r.conns h).closed = true) : ((r.setConn n c).conns h).closed = true := by
  by_cases hn : h = n
  · subst hn
    rw [setConn_self]
    exact hcl hc
  · rw [setConn_of_ne hn]
    exact hc

theorem Move.closed_mono (hm : Move r a r' outs) (hc : (r.conns h).closed = true) : (r'.conns h).closed = true := by
  cases hm with
  | aside => exact hc
  | established => exact hc
  | opened => exact setConn_closed id hc
  | passed => exact setConn_closed id hc
  | closed => exact setConn_closed id hc
  | ended => exact hc
  | aborted => exact hc
  | drove => exact setConn_closed (fun h => by rw [h]; rfl) hc
  | lost => exact setConn_closed (fun _ => rfl) hc

theorem drives_setConn {n : SessionHandle} {c : Conn} (hd : r'.drives h) (hc : r'.conns = (r.setConn n c).conns)
    (hs : c.session = (r.conns n).session) : r.drives h := by
  obtain ⟨s, hs', hne⟩ := hd
  rw [hc] at hs'
  by_cases hn : h = n
  · subst hn
    rw [setConn_self, hs] at hs'
    exact ⟨s, hs', hne⟩
  · rw [setConn_of_ne hn] at hs'
    exact ⟨s, hs', hne⟩

theorem Move.drives (hm : Move r a r' outs) (hd : r'.drives h) :
    r.drives h ∨ (∃ t, r.dialer.pc = .opening t h) ∧ r'.dialer.pc = .draining h := by
  cases hm with
  | aside => exact Or.inl hd
  | established => exact Or.inl hd
  | @opened d t n m hp hpc =>
    by_cases hn : h = n
    · subst hn
      exact Or.inr ⟨⟨t, hp⟩, hpc⟩
    · left
      obtain ⟨s, hs, hne⟩ := hd
      have hs' : s ∈ ((r.setConn n { r.conns n with session := some (.new m) }).conns h).session := hs
      rw [setConn_of_ne hn] at hs'
      exact ⟨s, hs', hne⟩
  | passed => exact Or.inl (drives_setConn hd rfl rfl)
  | closed => exact Or.inl (drives_setConn hd rfl rfl)
  | ended => exact Or.inl hd
  | aborted => exact Or.inl hd
  | @drove n act s s' os hs hstep =>
    left
    by_cases hn : h = n
    · subst hn
      exact ⟨s, hs, (Session.step_closedLast hstep).1⟩
    · obtain ⟨t, ht, hne⟩ := hd
      rw [setConn_of_ne hn] at ht
      exact ⟨t, ht, hne⟩
  | lost => exact Or.inl (drives_setConn hd rfl rfl)

theorem Move.handed (hm : Move r a r' outs) (hh : r'.Handed p h) :
    r.Handed p h ∨ ∃ t, r.dialer.pc = .opening t h := by
  have happend : ∀ es : List DialerEvent, .connected h ∉ es → p = some h ∨ .connected h ∈ r.channel ++ es →
      r.Handed p h := by
    intro es hes ho
    refine ho.imp_right fun hm => ?_
    rcases List.mem_append.mp hm with hm | hm
    · exact hm
    · exact absurd hm hes
  cases hm with
  | @aside _ d es channel _ _ _ _ hch hes =>
    have hh' : p = some h ∨ .connected h ∈ channel := hh
    rw [hch] at hh'
    exact Or.inl (happend es (fun hm => by cases hes _ hm) hh')
  | established => exact Or.inl hh
  | @opened d t n m hp =>
    by_cases hn : h = n
    · subst hn
      exact Or.inr ⟨t, hp⟩
    · exact Or.inl (happend [.connected n] (by simpa using hn) hh)
  | passed => exact Or.inl (happend [_] (by simp) hh)
  | closed => exact Or.inl (happend [_] (by simp) hh)
  | ended => exact Or.inl hh
  | aborted => exact Or.inl hh
  | drove => exact Or.inl hh
  | lost => exact Or.inl hh

/-- A task that is gone stays gone; the forwarder and `cancel` are not the run's own. -/
theorem Move.frame (hm : Move r a r' outs) :
    r'.cancelled = r.cancelled ∧ r'.forwarder = r.forwarder ∧
      (r.dialer.pc = .gone → r'.dialer.pc = .gone ∧ r'.channel = r.channel) := by
  cases hm with
  | aside hg => exact ⟨rfl, rfl, fun hp => absurd hp hg⟩
  | established hp => exact ⟨rfl, rfl, fun hg => by rw [hp] at hg; cases hg⟩
  | opened hp => exact ⟨rfl, rfl, fun hg => by rw [hp] at hg; cases hg⟩
  | passed hp => exact ⟨rfl, rfl, fun hg => by rw [hp] at hg; cases hg⟩
  | closed hp => exact ⟨rfl, rfl, fun hg => by rw [hp] at hg; cases hg⟩
  | ended hp => exact ⟨rfl, rfl, fun hg => by rw [hp] at hg; cases hg⟩
  | aborted _ hp => exact ⟨rfl, rfl, fun hg => by rw [hp] at hg; cases hg⟩
  | drove => exact ⟨rfl, rfl, fun hg => ⟨hg, rfl⟩⟩
  | lost => exact ⟨rfl, rfl, fun hg => ⟨hg, rfl⟩⟩

/-- The only driving task is the drained session's, as long as that one is not aborted. -/
theorem TidyInv.move_driven (hi : TidyInv r p) (hr : r.Sound) (ht : r.Tidy p a) (hm : Move r a r' outs) :
    ∀ h, r'.drives h → r'.dialer.pc = .draining h := by
  intro h hd'
  rcases hm.drives hd' with hd | ⟨-, hp⟩
  · have hdr := hi.driven h hd
    cases hm with
    | aside _ hn => rw [hdr] at hn; cases hn
    | established hp => rw [hdr] at hp; cases hp
    | opened hp => rw [hdr] at hp; cases hp
    | passed hp _ _ hpc =>
      rw [hpc]
      exact hp.symm.trans hdr
    | @closed d n e rest hp he hcl _ _ =>
      obtain rfl : n = h := by
        rw [hdr] at hp
        cases hp
        rfl
      exact absurd hd (hr.closed_done hp he hcl)
    | @ended d n hp he hnd _ _ =>
      obtain rfl : n = h := by
        rw [hdr] at hp
        cases hp
        rfl
      exact absurd hd hnd
    | aborted => exact absurd hd (ht h hdr).1
    | drove => exact hdr
    | lost => exact hdr
  · exact hp

/-- What is left in the slot is drained or closed. -/
theorem TidyInv.move_left (hi : TidyInv r p) (hr : r.Sound) (ht : r.Tidy p a) (hm : Move r a r' outs) :
    ∀ h, follow p r'.channel = some h → r'.dialer.pc = .draining h ∨ (r'.conns h).closed = true := by
  intro h hf
  have hkeep : follow p r.channel = some h → r.dialer.pc ≠ .draining h → (r'.conns h).closed = true := fun hf hn =>
    hm.closed_mono ((hi.left h hf).resolve_left hn)
  have hcl : (r.conns h).closed = true → (r'.conns h).closed = true := hm.closed_mono
  cases hm with
  | aside _ hn _ _ hch hes =>
    rw [hch, follow_append, follow_unmarked hes] at hf
    refine Or.inr (hkeep hf fun hp => ?_)
    rw [hp] at hn
    cases hn
  | established hp => exact Or.inr (hkeep hf (by rw [hp]; nofun))
  | opened _ hpc =>
    rw [follow_append] at hf
    cases hf
    exact Or.inl hpc
  | @passed d n e rest hp he hne hpc =>
    have hm : marks (.session e) = false := by
      cases e with
      | closed reason => cases hne
      | _ => rfl
    rw [follow_append, follow_cons, track_unmarked hm] at hf
    rcases hi.left h hf with hl | hl
    · exact Or.inl (hpc.trans (hp.symm.trans hl))
    · exact Or.inr (hcl hl)
  | @closed d n e rest hp he hc =>
    rw [follow_append] at hf
    cases e with
    | closed reason => cases hf
    | _ => cases hc
  | ended hp he hnd => exact absurd (hr.drives hp he) hnd
  | @aborted d n hcan hp =>
    right
    rcases hi.left h hf with hl | hl
    · exact (ht h hl).2
    · exact hl
  | drove => exact (hi.left h hf).imp id hcl
  | lost => exact (hi.left h hf).imp id hcl

/-- No handle of an earlier connection comes up while the run is not cancelled. -/
theorem TidyInv.move_old (hi : TidyInv r p) (hr : r.Sound) (ht : r.Tidy p a) (hm : Move r a r' outs) :
    r'.cancelled = false → ∀ h, h + 1 < r'.dialer.connections → r'.Handed p h → (r'.conns h).closed = true := by
  intro hcan h hlt hh
  rw [hm.frame.1] at hcan
  have hcl : (r.conns h).closed = true → (r'.conns h).closed = true := hm.closed_mono
  have hold : h + 1 < r.dialer.connections → (r'.conns h).closed = true := by
    intro hlt
    rcases hm.handed hh with hh | ⟨t, hp⟩
    · exact hcl (hi.old hcan h hlt hh)
    · rw [hr.newest h (held_opening hp)] at hlt
      exact absurd hlt (Nat.lt_irrefl _)
  cases hm with
  | aside _ _ _ hc => exact hold (hc ▸ hlt)
  | established => exact ht hcan h hh
  | opened _ _ hc => exact hold (hc ▸ hlt)
  | passed _ _ _ _ hc => exact hold (hc ▸ hlt)
  | closed _ _ _ _ hc => exact hold (hc ▸ hlt)
  | ended _ _ _ _ hc => exact hold (hc ▸ hlt)
  | aborted _ _ _ hc => exact hold (hc ▸ hlt)
  | drove => exact hold hlt
  | lost => exact hold hlt

theorem TidyInv.move (hi : TidyInv r p) (hr : r.Sound) (ht : r.Tidy p a) (hm : Move r a r' outs) :
    TidyInv r' p := by
  obtain ⟨-, hfw, hgone⟩ := hm.frame
  refine ⟨hi.move_driven hr ht hm, hi.move_left hr ht hm, fun hx => ?_, hi.move_old hr ht hm⟩
  rw [hfw] at hx
  obtain ⟨hch, hg⟩ := hi.done hx
  obtain ⟨hg', hch'⟩ := hgone hg
  exact ⟨hch'.trans hch, hg'⟩

theorem drives_congr (hc : ∀ s, (r'.conns h).session = some s → ∃ t, (r.conns h).session = some t ∧ t.stage = s.stage)
    (hd : r'.drives h) : r.drives h := by
  obtain ⟨s, hs, hne⟩ := hd
  obtain ⟨t, ht, hst⟩ := hc s hs
  exact ⟨t, ht, hst ▸ hne⟩

theorem TidyInv.congr (hi : TidyInv r p) (hd : r'.dialer = r.dialer) (hch : r'.channel = r.channel)
    (hc : ∀ h, (r'.conns h).closed = (r.conns h).closed) (hdr : ∀ h, r'.drives h → r.drives h)
    (hx : r'.forwarder = .exited → r.channel = [] ∧ r.dialer.pc = .gone)
    (hcan : r'.cancelled = false → r.cancelled = false) : TidyInv r' p := by
  refine ⟨fun h hh => ?_, fun h hh => ?_, fun hh => ?_, fun hh h hlt hm => ?_⟩
  · rw [hd]
    exact hi.driven h (hdr h hh)
  · rw [hch] at hh
    rw [hd, hc]
    exact hi.left h hh
  · rw [hch, hd]
    exact hx hh
  · unfold Handed at hm
    rw [hch] at hm
    rw [hd] at hlt
    rw [hc]
    exact hi.old (hcan hh) h hlt hm

theorem TidyInv.lose (hi : TidyInv r p) : TidyInv r none := by
  refine ⟨hi.driven, fun h hh => ?_, hi.done, fun hcan h hlt hm => ?_⟩
  · apply hi.left h
    rcases follow_start p r.channel with ⟨-, hn⟩ | he
    · rw [hn] at hh
      cases hh
    · rw [he]
      exact hh
  · rcases hm with hm | hm
    · cases hm
    · exact hi.old hcan h hlt (Or.inr hm)

theorem TidyInv.handle {e : DialerEvent} {rest : List DialerEvent} {f : Forwarder} {persisted : Bool}
    (hi : TidyInv r p) (hch : r.channel = e :: rest) (hf : f ≠ .exited) :
    TidyInv { r with channel := rest, persisted, forwarder := f } (track p e) := by
  refine ⟨hi.driven, fun h hh => ?_, fun hx => absurd hx hf, fun hcan h hlt hm => ?_⟩
  · apply hi.left h
    rw [hch, follow_cons]
    exact hh
  · apply hi.old hcan h hlt
    unfold Handed
    rw [hch]
    rcases hm with hm | hm
    · cases e with
      | connected n =>
        cases hm
        exact Or.inr (List.mem_cons_self ..)
      | session x =>
        cases x with
        | closed reason => cases hm
        | _ => exact Or.inl hm
      | reconnecting n d => exact Or.inl hm
    · exact Or.inr (List.mem_cons_of_mem _ hm)

end PairRun

namespace Core

variable {cfg : Config} {c c' : Core} {q : Nat} {h k : SessionHandle} {a : Act} {tr os : List Obs}

/-- Run `q` keeps its connections tidy; what other runs do does not matter. -/
def Tidy (q : Nat) (c : Core) : Act → Prop
  | .run k a => k = q → (c.runs q).Tidy (c.own q) a
  | _ => True

def Open (c : Core) (q : Nat) (h : SessionHandle) : Prop := (c.runs q).Open (c.own q) h

/-- Nothing is left of run `q`: no open connection and no driving task. -/
def Torn (c : Core) (q : Nat) : Prop := ∀ h, ¬ c.Open q h ∧ ¬ (c.runs q).drives h

theorem TidyInv.step (hi : (c.runs q).TidyInv (c.own q)) (hst : Started c) (hs : ∀ k, (c.runs k).Sound)
    (ht : c.Tidy q a) (h : step cfg c a = some (c', os)) : (c'.runs q).TidyInv (c'.own q) := by
  have hother : ∀ {k r}, q ≠ k → c'.runs = Function.update c.runs k r → c'.activeSession = c.activeSession →
      (c'.runs q).TidyInv (c'.own q) := by
    intro k r hk hr hslot
    rw [hr, Function.update_of_ne hk, own_congr hslot]
    exact hi
  have hself : ∀ {r}, c'.runs = Function.update c.runs q r → c'.activeSession = c.activeSession →
      r.TidyInv (c.own q) → (c'.runs q).TidyInv (c'.own q) := by
    intro r hr hslot hi'
    rw [hr, Function.update_self, own_congr hslot]
    exact hi'
  cases step_move h with
  | declined => exact hi
  | @paired decoded endpoint trust payload os hp =>
    by_cases hq : q = c.started
    · subst hq
      refine hself rfl rfl ⟨nofun, fun h hf => ?_, nofun, fun _ h hlt => absurd hlt (Nat.not_lt_zero _)⟩
      have hslot := hst.slot c.started h (own_some.mp hf)
      exact absurd hslot (Nat.lt_irrefl _)
    · exact hother hq rfl rfl
  | @cancelled k hk =>
    by_cases hq : q = k
    · subst hq
      exact hself rfl rfl (hi.congr rfl rfl (fun _ => rfl) (fun _ => id) hi.done nofun)
    · exact hother hq rfl rfl
  | @ran k act r outs hr =>
    by_cases hq : q = k
    · subst hq
      obtain ⟨hm, -⟩ := PairRun.step_move (hs q).listening hr
      exact hself rfl rfl (hi.move (hs q) (ht rfl) hm)
    · exact hother hq rfl rfl
  | @handled k e rest f persisted os hfw hch hne =>
    have hslot : ∀ r, ({ c with activeSession := c.slotAfter k e }.setRun k r).activeSession = c.slotAfter k e :=
      fun _ => rfl
    by_cases hq : q = k
    · subst hq
      rw [own_after (hslot _), setRun_self]
      exact hi.handle hch hne
    · rw [setRun_of_ne hq]
      rcases own_after_of_ne (hslot _) hq with ⟨hown, -⟩ | ⟨hown, -⟩
      · rw [hown]
        exact hi
      · rw [hown]
        exact hi.lose
  | @exited k hfw hch hg =>
    by_cases hq : q = k
    · subst hq
      exact hself rfl rfl (hi.congr rfl rfl (fun _ => rfl) (fun _ => id) (fun _ => ⟨hch, hg⟩) id)
    · exact hother hq rfl rfl
  | @persists a k f peers tmp os hfw hne =>
    by_cases hq : q = k
    · subst hq
      exact hself rfl rfl (hi.congr rfl rfl (fun _ => rfl) (fun _ => id) (fun hx => absurd hx hne) id)
    · exact hother (k := k) hq rfl rfl
  | @queued text clip k n hclip hslot =>
    by_cases hq : q = k
    · subst hq
      refine hself rfl rfl (hi.congr rfl rfl (fun h => ?_) (fun h hd => ?_) hi.done id)
      · by_cases hn : h = n
        · subst hn
          rw [PairRun.setConn_self]
        · rw [PairRun.setConn_of_ne hn]
      · refine PairRun.drives_congr (fun s hs => ?_) hd
        by_cases hn : h = n
        · subst hn
          rw [PairRun.setConn_self] at hs
          obtain ⟨t, ht, rfl⟩ := Option.map_eq_some_iff.mp hs
          exact ⟨t, ht, (Session.sendClipboard_stage t clip).symm⟩
        · rw [PairRun.setConn_of_ne hn] at hs
          exact ⟨s, hs, rfl⟩
    · exact hother hq rfl rfl

theorem run_tidyInv (h : Run (system cfg) (fun _ c a => c.Tidy q a) tr c) : (c.runs q).TidyInv (c.own q) := by
  induction h with
  | init h0 =>
    obtain ⟨peers, tmp, rfl⟩ := h0
    exact ⟨nofun, nofun, fun _ => ⟨rfl, rfl⟩, nofun⟩
  | step hr ht hs ih => exact TidyInv.step ih (run_started hr) (run_sound hr) ht hs

/-- A connection that is open before `cancel` is the newest one. -/
theorem newest_of_open (hi : (c.runs q).TidyInv (c.own q)) (hr : (c.runs q).Sound) (hcan : (c.runs q).cancelled = false)
    (ho : c.Open q h) : h + 1 = (c.runs q).dialer.connections := by
  obtain ⟨hlt, hopen, hheld | hdr | hh⟩ := ho
  · exact hr.newest h hheld
  · exact hr.newest h (PairRun.held_draining (hi.driven h hdr))
  · by_contra hne
    have hcl := hi.old hcan h (Nat.lt_of_le_of_ne hlt hne) hh
    rw [hopen] at hcl
    cases hcl

/-- A run whose connections were kept tidy leaves nothing behind once its dial
task is gone and its forwarder has exited, and has at most one connection open
before `cancel`. -/
theorem run_torn (hr : Run (system cfg) (fun _ c a => c.Tidy q a) tr c) :
    ((c.runs q).dialer.pc = .gone → (c.runs q).forwarder = .exited → c.Torn q) ∧
      ((c.runs q).cancelled = false → ∀ h k, c.Open q h → c.Open q k → h = k) := by
  have hi := run_tidyInv hr
  have hs := run_sound hr q
  constructor
  · intro hg hx h
    have hnd : ¬ (c.runs q).drives h := fun hd => by
      rw [hi.driven h hd] at hg
      cases hg
    refine ⟨?_, hnd⟩
    rintro ⟨-, hopen, hheld | hd | hh⟩
    · rw [hg] at hheld
      cases hheld
    · exact hnd hd
    · have hch := (hi.done hx).1
      rcases hh with hh | hh
      · have hf : follow (c.own q) (c.runs q).channel = some h := by
          rw [hch]
          exact hh
        rcases hi.left h hf with hp | hcl
        · rw [hp] at hg
          cases hg
        · rw [hopen] at hcl
          cases hcl
      · rw [hch] at hh
        cases hh
  · intro hcan h k hh hk
    have h1 := newest_of_open hi hs hcan hh
    have h2 := newest_of_open hi hs hcan hk
    exact Nat.succ.inj (h1.trans h2.symm)

/-- A check that implies `Tidy`. -/
def tidy (q : Nat) (c : Core) : Act → Bool
  | .run k .abort => k ≠ q ∨ drained (c.runs q).dialer.pc = none
  | .run k (.connect true) => k ≠ q ∨ c.own q = none ∧ ∀ e ∈ (c.runs q).channel, marks e = false
  | _ => true

theorem tidy_sound (h : c.tidy q a = true) : c.Tidy q a := by
  unfold tidy at h
  split at h
  · intro hk n hp
    have hn := (of_decide_eq_true h).resolve_left (not_not.mpr hk)
    rw [hp] at hn
    cases hn
  · intro hk _ n hh
    obtain ⟨hown, hch⟩ := (of_decide_eq_true h).resolve_left (not_not.mpr hk)
    rcases hh with hh | hh
    · rw [hown] at hh
      cases hh
    · cases hch _ hh
  · rename_i hab hcon
    unfold Tidy
    split
    · rename_i k act
      intro _
      unfold PairRun.Tidy
      split
      · exact absurd rfl (hab k)
      · exact absurd rfl (hcon k)
      · trivial
    · trivial

/-- The connection comes up and breaks, and the run is cancelled while it waits to retry. -/
def parts : List Act :=
  [.pair (.ok desk) (.ok ()), .run 0 (.dial true), .run 0 (.connect true), .run 0 (.openBi true),
    .run 0 (.drive 0 (.start true)), .run 0 (.drive 0 (.lost "timed out")), .run 0 .drain, .run 0 .retry, .cancel 0,
    .run 0 .abort, .forward 0, .forward 0, .forward 0, .forward 0]

theorem parts_enabled : (exec (system phone) (fun _ => tidy 0) [] (new none none) parts).isSome = true := by
  decide +kernel

theorem run_torn_parts :
    let r := (exec (system phone) (fun _ => tidy 0) [] (new none none) parts).get parts_enabled
    r.2.Torn 0 := by
  have hr := run_of_exec (M := system phone) (C := fun _ c a => c.Tidy 0 a) (fun _ _ _ h => tidy_sound h)
    ⟨none, none, rfl⟩ parts_enabled
  exact (run_torn hr).1 (by decide +kernel) (by decide +kernel)

/-- The run is cancelled while it drains a session; the forwarder exits right behind the dial task. -/
def walksOff : List Act :=
  [.pair (.ok desk) (.ok ()), .run 0 (.dial true), .run 0 (.connect true), .run 0 (.openBi true),
    .run 0 (.drive 0 (.start true)), .forward 0, .cancel 0, .run 0 .abort, .forward 0]

theorem walksOff_enabled : (exec (system phone) anyway [] (new none none) walksOff).isSome = true := by
  decide +kernel

/-- The driving task runs on and the connection stays open. -/
theorem walksOff_left : ∃ tr c, Run (system phone) always tr c ∧ (c.runs 0).cancelled = true ∧
    (c.runs 0).dialer.pc = .gone ∧ (c.runs 0).forwarder = .exited ∧ (c.runs 0).drives 0 ∧ c.Open 0 0 ∧ ¬ c.Torn 0 := by
  have hr := run_of_anyway (M := system phone) ⟨none, none, rfl⟩ walksOff_enabled
  refine ⟨_, _, hr, by decide +kernel, by decide +kernel, by decide +kernel, by decide +kernel,
    ⟨by decide +kernel, by decide +kernel, Or.inr (Or.inl (by decide +kernel))⟩, fun ht => ?_⟩
  exact (ht 0).2 (by decide +kernel)

end Core

end Ffi

end PenguinSync
