import PenguinSync.Net.Exchange

/-!
# Two sessions and the messages between them

A session that reads whole frames only is all the daemon and the app know of a
driving task. Two such sessions, each with the frames that are on their way to
it, are two tasks whose every read takes exactly one frame.
-/

namespace PenguinSync

open Lts Wire

/-! ## Handshakes fit -/

/-- A handshake that lists no capabilities takes its name and at most 90 bytes more. -/
theorem length_encode_handshake_le {h : Handshake} (hcaps : h.capabilities = []) :
    (encode (.handshake h)).length ≤ 90 + (utf8 h.name).length := by
  have hput : encode (.handshake h) = Postcard.variant.put .handshake ++ (Postcard.u16.put h.version ++
      ((Postcard.bytes 32).put h.deviceId ++ (Postcard.string.put h.name ++
        ((Format.list Postcard.usize Postcard.capability).put h.capabilities ++
          (Format.option (Postcard.bytes tokenLen)).put h.pairingToken)))) := rfl
  have hvariant : (Postcard.variant.put .handshake).length = 1 := by decide
  have hversion : (Postcard.u16.put h.version).length ≤ 3 := length_putVarint_le 2 _
  have hid : ((Postcard.bytes 32).put h.deviceId).length = 32 := by
    show (h.deviceId.1.flatMap fun b => [b]).length = 32
    rw [List.flatMap_singleton', h.deviceId.2]
  have hname : (Postcard.string.put h.name).length ≤ 10 + (utf8 h.name).length := length_put_bytes_le _
  have hnone : ((Format.list Postcard.usize Postcard.capability).put h.capabilities).length = 1 := by
    rw [hcaps]
    decide
  have htoken : ((Format.option (Postcard.bytes tokenLen)).put h.pairingToken).length ≤ 33 := by
    cases ht : h.pairingToken with
    | none => decide
    | some t =>
      show (1 :: t.1.flatMap fun b => [b]).length ≤ 33
      rw [List.flatMap_singleton', List.length_cons, t.2]
      decide
  rw [hput]
  simp only [List.length_append]
  omega
/-! ## The pair -/

/-- `chan s` holds the messages on their way to `s`, each in a frame of its own. -/
structure Duplex where
  session : Side → Session
  chan : Side → List Message

namespace Duplex

inductive Act where
  | queue (s : Side) (c : Clip)
  | step (s : Side) (a : Session.Act)

inductive Obs where
  | queued (s : Side) (c : Clip)
  | out (s : Side) (o : Output)
  deriving DecidableEq

/-- What is still on its way once the read of a step is over; other steps read nothing. -/
def takes : Session.Act → List Message → Option (List Message)
  | .receive body .., ms =>
    match ms with
    | m :: rest => if body = encode m then some rest else none
    | [] => none
  | .oversized len, ms =>
    match ms with
    | m :: rest => if len = (encode m).length then some rest else none
    | [] => none
  | _, ms => some ms

def step (d : Duplex) : Act → Option (Duplex × List Obs)
  | .queue s c =>
    some ({ d with session := Function.update d.session s ((d.session s).sendClipboard c) }, [.queued s c])
  | .step s a =>
    match takes a (d.chan s), (d.session s).step a with
    | some rest, some (ses, outs) =>
      some (⟨Function.update d.session s ses,
        Function.update (Function.update d.chan s rest) s.other (d.chan s.other ++ outs.filterMap Output.sent?)⟩,
        outs.map (.out s))
    | _, _ => none

def initial (e : Side → Endpoint) : Duplex := ⟨fun s => .new (e s).machine, fun _ => []⟩

def system (e : Side → Endpoint) : System Duplex Act Obs := { init := (· = initial e), step }

/-! ## What is read off a run -/

def Obs.queued? (s : Side) : Obs → Option Clip
  | .queued t c => if t = s then some c else none
  | .out .. => none

def Obs.out? (s : Side) : Obs → Option Output
  | .queued .. => none
  | .out t o => if t = s then some o else none

def queued (s : Side) (tr : List Obs) : List Clip := tr.filterMap (Obs.queued? s)

def events (s : Side) (tr : List Obs) : List SessionEvent := (tr.filterMap (Obs.out? s)).filterMap Output.event?

def clipsHeard (s : Side) (tr : List Obs) : List Clip := (events s tr).filterMap SessionEvent.clip?

def Unmet (s : Side) (tr : List Obs) : Prop := ∀ ev ∈ events s tr, ev.isPeerHandshake = false

/-- What is queued fits in a frame. -/
def Careful (_ : List Obs) (_ : Duplex) : Act → Prop
  | .queue _ c => (Message.clipboard c).Fits
  | .step .. => True

/-! ## The driving tasks underneath -/

/-- What of an exchange shows between whole messages. -/
def seen? : Exchange.Obs → Option Obs
  | .queued s c => some (.queued s c)
  | .drive s (.out o) => some (.out s o)
  | .drive _ _ => none

/-- The exchange whose streams hold the frames of what is on its way, all of it still to arrive. -/
def spread (d : Duplex) : Exchange := ⟨fun s => ⟨d.session s, 0, [], (d.chan s).flatMap frame, true⟩⟩

section
variable {e : Side → Endpoint} {d d' : Duplex} {a : Act} {tr os : List Obs} {s t : Side} {trX : List Exchange.Obs}

theorem queued_seen (s : Side) (trX : List Exchange.Obs) : queued s (trX.filterMap seen?) = Exchange.queued s trX := by
  unfold queued Exchange.queued
  rw [List.filterMap_filterMap]
  apply List.filterMap_congr
  intro o _
  cases o with
  | queued t c => rfl
  | drive t o => cases o <;> rfl

theorem events_seen (s : Side) (trX : List Exchange.Obs) : events s (trX.filterMap seen?) = Exchange.events s trX := by
  have houts : (trX.filterMap seen?).filterMap (Obs.out? s) = Drive.outputs (Exchange.polls s trX) := by
    unfold Drive.outputs Exchange.polls
    rw [List.filterMap_filterMap, List.filterMap_filterMap]
    apply List.filterMap_congr
    intro o _
    cases o with
    | queued t c => rfl
    | drive t o =>
      by_cases ht : t = s
      · cases o <;> simp [seen?, Obs.out?, ht]
      · cases o <;> simp [seen?, Obs.out?, ht]
  unfold events
  rw [houts]
  rfl

theorem seen_out (s : Side) (outs : List Output) :
    ((outs.map Drive.Obs.out).map (Exchange.Obs.drive s)).filterMap seen? = outs.map (.out s) := by
  rw [List.map_map, List.filterMap_map, ← List.filterMap_eq_map]
  rfl

/-! ## Frames that fit -/

def Fit (ses : Session) : Prop :=
  (Message.handshake ses.machine.ownHandshake).Fits ∧ ∀ c ∈ ses.commands, (Message.clipboard c).Fits

theorem fit_give {ses : Session} (hf : Fit ses) {ev : Event} (hev : ∀ c, ev = .sendClipboard c → (Message.clipboard c).Fits)
    (nonce : UInt64) (clock : Time) (write : Bool) :
    Fit (ses.give ev nonce clock write).1 ∧
      ∀ m ∈ (ses.give ev nonce clock write).2.filterMap Output.sent?, m.Fits := by
  have hc : Call ses.machine nonce clock ev _ _ := handle_call rfl
  refine ⟨⟨?_, hf.2⟩, fun m hm => ?_⟩
  · have hown : (ses.give ev nonce clock write).1.machine.ownHandshake = ses.machine.ownHandshake :=
      handle_ownHandshake ses.machine ev nonce clock
    rw [hown]
    exact hf.1
  · apply hc.fits hf.1 hev
    rw [← (hc.runActions write).whole]
    exact List.mem_append_left _ hm

theorem fit_close {ses : Session} (hf : Fit ses) (r : CloseReason) :
    Fit (ses.close r).1 ∧ ∀ m ∈ (ses.close r).2.filterMap Output.sent?, m.Fits :=
  ⟨hf, fun m hm => by cases hm⟩

theorem fit_step {ses ses' : Session} {b : Session.Act} {outs : List Output} (hf : Fit ses)
    (h : ses.step b = some (ses', outs)) : Fit ses' ∧ ∀ m ∈ outs.filterMap Output.sent?, m.Fits := by
  have hgive : ∀ {ev nonce clock write}, (∀ c, ev ≠ .sendClipboard c) →
      ses.give ev nonce clock write = (ses', outs) → Fit ses' ∧ ∀ m ∈ outs.filterMap Output.sent?, m.Fits := by
    intro ev nonce clock write hev hg
    have := fit_give hf (fun c hc => absurd hc (hev c)) nonce clock write
    rwa [hg] at this
  have hclose : ∀ {r}, ses.close r = (ses', outs) → Fit ses' ∧ ∀ m ∈ outs.filterMap Output.sent?, m.Fits := by
    intro r hg
    have := fit_close hf r
    rwa [hg] at this
  cases b with
  | start write =>
    simp only [Session.step, Option.ite_none_right_eq_some, Option.some.injEq] at h
    exact hgive (by simp) h.2
  | receive body nonce clock write =>
    simp only [Session.step, Option.ite_none_right_eq_some] at h
    obtain ⟨-, h⟩ := h
    split at h
    · exact hgive (by simp) (Option.some.inj h)
    · exact hclose (Option.some.inj h)
  | oversized len =>
    simp only [Session.step, Option.ite_none_right_eq_some, Option.some.injEq] at h
    exact hclose h.2
  | tick now nonce write =>
    simp only [Session.step, Option.ite_none_right_eq_some, Option.some.injEq] at h
    exact hgive (by simp) h.2
  | command write =>
    simp only [Session.step, Option.ite_none_right_eq_some] at h
    obtain ⟨-, h⟩ := h
    split at h
    · cases h
    · rename_i c cs hcs
      have hrest : Fit { ses with commands := cs } :=
        ⟨hf.1, fun x hx => hf.2 x (by rw [hcs]; exact List.mem_cons_of_mem c hx)⟩
      have hc : ∀ x, Event.sendClipboard c = .sendClipboard x → (Message.clipboard x).Fits := by
        intro x hx
        cases hx
        exact hf.2 c (by rw [hcs]; exact List.mem_cons_self)
      have := fit_give hrest hc 0 0 write
      rwa [Option.some.inj h] at this
  | lost e =>
    simp only [Session.step, Option.ite_none_right_eq_some, Option.some.injEq] at h
    exact hclose h.2

theorem fit_queue {ses : Session} {c : Clip} (hf : Fit ses) (hc : (Message.clipboard c).Fits) :
    Fit (ses.sendClipboard c) := by
  refine ⟨by rw [Session.sendClipboard_machine]; exact hf.1, fun x hx => ?_⟩
  unfold Session.sendClipboard at hx
  split at hx
  · exact hf.2 x hx
  · rcases List.mem_append.mp hx with hx | hx
    · exact hf.2 x hx
    · rw [List.mem_singleton.mp hx]
      exact hc

/-! ## A step of the driving tasks -/

def after (x : Exchange) (s : Side) (dr : Drive) (outs : List Output) : Exchange :=
  ⟨Function.update (Function.update x.drive s dr) s.other
    { x.drive s.other with
      arriving := (x.drive s.other).arriving ++ (outs.filterMap Output.sent?).flatMap frame }⟩

/-- A poll of one side; of a frame that cannot be written nothing gets through. -/
theorem exchange_step {x : Exchange} {b : Drive.Act} {dr : Drive} {dos : List Drive.Obs} {outs : List Output}
    (h : (x.drive s).step b = some (dr, dos)) (ho : Drive.outputs dos = outs)
    (hfit : ∀ m ∈ outs.filterMap Output.sent?, m.Fits) :
    x.step ⟨s, b, 0⟩ = some (after x s dr outs,
      (Exchange.Act.queued? ⟨s, b, 0⟩).toList.map (.queued s) ++ dos.map (.drive s)) := by
  have hnone : (outs.filterMap Output.unsent?).flatMap (fun m => (frame m).dropLast.take 0) = [] := by
    rw [List.flatMap_eq_nil_iff]
    intro m _
    exact List.take_zero
  have hw : Exchange.written 0 (Drive.outputs dos) = some ((outs.filterMap Output.sent?).flatMap frame) := by
    unfold Exchange.written
    rw [ho, writeMessages_fits hfit, hnone]
    simp
  simp only [Exchange.step, h, hw, Option.bind_eq_bind, Option.bind_some]
  rfl

/-- One side has moved on, has read all but `rest` and put `outs` on its stream. -/
def moved (d : Duplex) (s : Side) (ses : Session) (rest : List Message) (outs : List Output) : Duplex :=
  ⟨Function.update d.session s ses,
    Function.update (Function.update d.chan s rest) s.other (d.chan s.other ++ outs.filterMap Output.sent?)⟩

theorem moved_still (d : Duplex) (s : Side) (ses : Session) :
    d.moved s ses (d.chan s) [] = { d with session := Function.update d.session s ses } := by
  unfold moved
  rw [Function.update_eq_self, List.filterMap_nil, List.append_nil, Function.update_eq_self]

theorem spread_moved {x : Exchange} {ses : Session} {rest : List Message} {outs : List Output}
    (hx : x.drive s.other = d.spread.drive s.other) :
    after x s ⟨ses, 0, [], rest.flatMap frame, true⟩ outs = (d.moved s ses rest outs).spread := by
  unfold after spread moved
  congr 1
  funext t
  rcases Side.eq_or_other s t with rfl | rfl
  · simp
  · simp [hx, spread]

theorem careful_poll {x : Exchange} {b : Drive.Act} (hb : (x.drive s).Careful b)
    (hq : Exchange.Act.queued? ⟨s, b, 0⟩ = none) : Exchange.Careful trX x ⟨s, b, 0⟩ := by
  refine ⟨hb, fun c hc => ?_⟩
  rw [hq] at hc
  cases hc

theorem poll_path {ses : Session} {b : Drive.Act} {dos : List Drive.Obs} {outs : List Output}
    (hstep : (d.spread.drive s).step b = some (⟨ses, 0, [], (d.chan s).flatMap frame, true⟩, dos))
    (ho : Drive.outputs dos = outs) (hfit : ∀ m ∈ outs.filterMap Output.sent?, m.Fits)
    (hb : (d.spread.drive s).Careful b) (hq : Exchange.Act.queued? ⟨s, b, 0⟩ = none)
    (hseen : (dos.map (Exchange.Obs.drive s)).filterMap seen? = outs.map (.out s)) :
    ∃ xs, Path (Exchange.system e) Exchange.Careful trX d.spread (trX ++ xs) (d.moved s ses (d.chan s) outs).spread ∧
      xs.filterMap seen? = outs.map (.out s) := by
  have hx := exchange_step hstep ho hfit
  rw [spread_moved rfl, hq] at hx
  exact ⟨_, .step .refl (careful_poll hb hq) hx, hseen⟩

theorem seen_lose (s : Side) (dr : Drive) (outs : List Output) :
    ((dr.lose :: outs.map Drive.Obs.out).map (Exchange.Obs.drive s)).filterMap seen? = outs.map (.out s) := seen_out s outs

theorem seen_handed (s : Side) (m : Message) (outs : List Output) :
    ((Drive.Obs.handed m :: outs.map Drive.Obs.out).map (Exchange.Obs.drive s)).filterMap seen? = outs.map (.out s) :=
  seen_out s outs

theorem read_path (trX : List Exchange.Obs) (nonce : UInt64) (clock : Time) (write : Bool) {m : Message} {rest : List Message}
    (hm : d.chan s = m :: rest) (hfits : m.Fits) (hloop : (d.session s).stage = .loop)
    (hfit : ∀ x ∈ ((d.session s).give (.received m) nonce clock write).2.filterMap Output.sent?, x.Fits) :
    ∃ xs, Path (Exchange.system e) Exchange.Careful trX d.spread (trX ++ xs)
        (d.moved s ((d.session s).give (.received m) nonce clock write).1 rest
          ((d.session s).give (.received m) nonce clock write).2).spread ∧
      xs.filterMap seen? = ((d.session s).give (.received m) nonce clock write).2.map (.out s) := by
  have harrive : (d.spread.drive s).step (.arrive (frame m).length) =
      some (⟨d.session s, 0, frame m, rest.flatMap frame, true⟩, []) := by
    simp [Drive.step, spread, hm]
  obtain ⟨x, hx⟩ : ∃ x, x = after d.spread s ⟨d.session s, 0, frame m, rest.flatMap frame, true⟩ [] := ⟨_, rfl⟩
  have hx₁ : d.spread.step ⟨s, .arrive (frame m).length, 0⟩ = some (x, []) := by
    have hnil : ∀ m ∈ ([] : List Output).filterMap Output.sent?, m.Fits := fun m hm => absurd hm List.not_mem_nil
    rw [exchange_step harrive rfl hnil, hx]
    rfl
  have hself : x.drive s = ⟨d.session s, 0, frame m, rest.flatMap frame, true⟩ := by simp [hx, after]
  have hother : x.drive s.other = d.spread.drive s.other := by simp [hx, after, spread]
  have hread : readMessage (frame m) = ((frame m).length, some (.ok m)) := by
    have := readMessage_frame hfits []
    rwa [List.append_nil] at this
  have hpoll : (x.drive s).step (.read nonce clock write) =
      some (⟨((d.session s).give (.received m) nonce clock write).1, 0, [], rest.flatMap frame, true⟩,
        .handed m :: ((d.session s).give (.received m) nonce clock write).2.map .out) := by
    rw [hself]
    simp only [Drive.step, hloop, hread, if_true, List.drop_length]
    rfl
  have hx₂ := exchange_step hpoll (Drive.outputs_handed m _) hfit
  rw [spread_moved hother] at hx₂
  have h₁ : Path (Exchange.system e) Exchange.Careful trX d.spread (trX ++ []) x :=
    .step .refl (careful_poll (b := .arrive _) trivial rfl) hx₁
  rw [List.append_nil] at h₁
  exact ⟨_, .step h₁ (careful_poll (b := .read ..) trivial rfl) hx₂, seen_handed s m _⟩

/-! ## Every step -/

theorem decode_fits {m : Message} (h : m.Fits) : decode (encode m) = some m := by
  have hok : Postcard.message.ok m := by
    apply Postcard.message_ok
    unfold Message.Fits maxFrameLen at h
    omega
  have hdec := decode_encode hok []
  rwa [List.append_nil] at hdec

/-- The exchange of the same sessions has seen what they have. -/
structure Spread (e : Side → Endpoint) (tr : List Obs) (d : Duplex) (trX : List Exchange.Obs) (x : Exchange) : Prop where
  state : x = d.spread
  trace : trX.filterMap seen? = tr
  fit : ∀ s, Fit (d.session s)
  fits : ∀ s, ∀ m ∈ d.chan s, m.Fits

theorem fits_moved (hi : ∀ t, ∀ m ∈ d.chan t, m.Fits) {rest : List Message} {outs : List Output} {ses : Session}
    (hr : ∀ m ∈ rest, m.Fits) (hfit : ∀ m ∈ outs.filterMap Output.sent?, m.Fits) :
    ∀ t, ∀ m ∈ (d.moved s ses rest outs).chan t, m.Fits := by
  intro t m hm
  rcases Side.eq_or_other s t with rfl | rfl
  · exact hr m (by simpa [moved] using hm)
  · have hm' : m ∈ d.chan s.other ++ outs.filterMap Output.sent? := by simpa [moved] using hm
    rcases List.mem_append.mp hm' with hm' | hm'
    · exact hi _ m hm'
    · exact hfit m hm'

theorem Spread.moves {x : Exchange} (hi : Spread e tr d trX x) {ses : Session} {rest : List Message} {outs : List Output}
    (hf : Fit ses) (hr : ∀ m ∈ rest, m.Fits) (hfit : ∀ m ∈ outs.filterMap Output.sent?, m.Fits)
    (hp : ∃ xs, Path (Exchange.system e) Exchange.Careful trX d.spread (trX ++ xs) (d.moved s ses rest outs).spread ∧
      xs.filterMap seen? = outs.map (.out s)) :
    ∃ trX' x', Path (Exchange.system e) Exchange.Careful trX x trX' x' ∧
      Spread e (tr ++ outs.map (.out s)) (d.moved s ses rest outs) trX' x' := by
  obtain ⟨xs, hp, hxs⟩ := hp
  rw [← hi.state] at hp
  refine ⟨_, _, hp, rfl, ?_, fun t => ?_, fits_moved hi.fits hr hfit⟩
  · rw [List.filterMap_append, hi.trace, hxs]
  · rcases Side.eq_or_other s t with rfl | rfl
    · simpa [moved] using hf
    · simpa [moved] using hi.fit s.other

theorem Spread.step {x : Exchange} (hi : Spread e tr d trX x) (hc : Careful tr d a) (h : Duplex.step d a = some (d', os)) :
    ∃ trX' x', Path (Exchange.system e) Exchange.Careful trX x trX' x' ∧ Spread e (tr ++ os) d' trX' x' := by
  cases a with
  | queue s c =>
    cases h
    have hf := fit_queue (hi.fit s) hc
    have hx : x.step ⟨s, .queue c, 0⟩ = some (after d.spread s
        ⟨(d.session s).sendClipboard c, 0, [], (d.chan s).flatMap frame, true⟩ [], [.queued s c]) := by
      have hq : (d.spread.drive s).step (.queue c) =
          some (⟨(d.session s).sendClipboard c, 0, [], (d.chan s).flatMap frame, true⟩, []) := rfl
      rw [hi.state, exchange_step hq rfl fun m hm => by cases hm]
      rfl
    rw [spread_moved rfl, moved_still] at hx
    have hcare : Exchange.Careful trX x ⟨s, .queue c, 0⟩ := by
      refine ⟨trivial, fun c' hc' => ?_⟩
      cases hc'
      exact hc
    refine ⟨_, _, .step .refl hcare hx, rfl, ?_, fun t => ?_, hi.fits⟩
    · rw [List.filterMap_append, hi.trace]
      rfl
    · rcases Side.eq_or_other s t with rfl | rfl
      · simpa using hf
      · simpa using hi.fit s.other
  | step s b =>
    simp only [Duplex.step] at h
    split at h
    · rename_i rest ses outs hrest hses
      cases h
      obtain ⟨hf, hfit⟩ := fit_step (hi.fit s) hses
      cases b with
      | receive body nonce clock write =>
        simp only [takes] at hrest
        split at hrest
        · rename_i m ms hm
          simp only [Option.ite_none_right_eq_some, Option.some.injEq] at hrest
          obtain ⟨rfl, rfl⟩ := hrest
          have hmf : m.Fits := hi.fits s m (by rw [hm]; exact List.mem_cons_self)
          have hdec := decode_fits hmf
          simp only [Session.step, hdec, Option.ite_none_right_eq_some, Option.some.injEq] at hses
          obtain ⟨⟨hloop, -⟩, hg⟩ := hses
          refine hi.moves hf (fun x hx => hi.fits s x (by rw [hm]; exact List.mem_cons_of_mem m hx)) hfit ?_
          have hp := read_path (e := e) trX nonce clock write hm hmf hloop
          rw [hg] at hp
          exact hp hfit
        · cases hrest
      | oversized len =>
        simp only [takes] at hrest
        split at hrest
        · rename_i m ms hm
          simp only [Option.ite_none_right_eq_some, Option.some.injEq] at hrest
          obtain ⟨rfl, rfl⟩ := hrest
          simp only [Session.step, Option.ite_none_right_eq_some, Option.some.injEq] at hses
          have hmf : m.Fits := hi.fits s m (by rw [hm]; exact List.mem_cons_self)
          exact absurd hses.1.2 (Nat.not_lt.mpr hmf)
        · cases hrest
      | start write =>
        cases hrest
        simp only [Session.step, Option.ite_none_right_eq_some, Option.some.injEq] at hses
        obtain ⟨hs, hg⟩ := hses
        have hpoll : (d.spread.drive s).step (.start write) =
            some (⟨ses, 0, [], (d.chan s).flatMap frame, true⟩, outs.map .out) := by
          simp only [Drive.step, spread, hs, if_true, hg]
          rfl
        exact hi.moves hf (hi.fits s) hfit (poll_path hpoll (Drive.outputs_out outs) hfit trivial rfl (seen_out s outs))
      | tick now nonce write =>
        cases hrest
        simp only [Session.step, Option.ite_none_right_eq_some, Option.some.injEq] at hses
        obtain ⟨hs, hg⟩ := hses
        refine hi.moves hf (hi.fits s) hfit (poll_path (b := .tick now nonce write) ?_
          (Drive.outputs_lose (d.spread.drive s) outs) hfit rfl rfl (seen_lose s _ outs))
        simp only [Drive.step, spread, hs, if_true, hg]
        rfl
      | command write =>
        cases hrest
        simp only [Session.step, Option.ite_none_right_eq_some] at hses
        obtain ⟨hs, hg⟩ := hses
        split at hg
        · cases hg
        · rename_i c cs hcs
          rw [hs, Option.some.injEq] at hg
          refine hi.moves hf (hi.fits s) hfit (poll_path (b := .command write) ?_
            (Drive.outputs_lose (d.spread.drive s) outs) hfit rfl rfl (seen_lose s _ outs))
          simp only [Drive.step, spread, hs, hcs, and_self, if_true, hg]
          rfl
      | lost r =>
        cases hrest
        simp only [Session.step, Option.ite_none_right_eq_some, Option.some.injEq] at hses
        obtain ⟨hs, hg⟩ := hses
        have hpoll : (d.spread.drive s).step (.lost r) =
            some (⟨ses, 0, [], (d.chan s).flatMap frame, true⟩, outs.map .out) := by
          simp only [Drive.step, spread, hs, if_true, hg]
          rfl
        exact hi.moves hf (hi.fits s) hfit (poll_path hpoll (Drive.outputs_out outs) hfit trivial rfl (seen_out s outs))
    · cases h

theorem run_spread (hhello : ∀ s, (Message.handshake (e s).machine.ownHandshake).Fits)
    (h : Run (system e) Careful tr d) :
    ∃ trX x, Run (Exchange.system e) Exchange.Careful trX x ∧ Spread e tr d trX x := by
  refine Run.refined (R := fun tr d trX x => Spread e tr d trX x) (fun d hd => ?_)
    (fun tr d a d' os trX x _ hi hc hs => hi.step hc hs) h
  rw [hd]
  exact ⟨_, rfl, rfl, rfl, fun s => ⟨hhello s, fun c hc => absurd hc List.not_mem_nil⟩,
    fun s m hm => absurd hm List.not_mem_nil⟩

/-- What a side has heard is what was queued at the other, in order, but for the
first clips, queued before the other had met its peer, and those on their way. -/
theorem run_hears (hhello : ∀ s, (Message.handshake (e s).machine.ownHandshake).Fits)
    (h : Run (system e) Careful tr d) (s : Side) : ∃ early rest,
    queued s.other tr = early ++ clipsHeard s tr ++ rest ∧
      (∃ pre, pre <+: tr ∧ early <+: queued s.other pre ∧ Unmet s.other pre) ∧
      (d.chan s = [] → (d.session s.other).stage ≠ .done → rest = (d.session s.other).commands) := by
  obtain ⟨trX, x, hx, hi⟩ := run_spread hhello h
  obtain ⟨early, rest, hqu, ⟨pre, hpre, hearly, hunmet⟩, hrest⟩ := Exchange.run_clipsHeard hhello hx s
  rw [← queued_seen, hi.trace] at hqu
  have hheard : Exchange.clipsHeard s trX = clipsHeard s tr := by
    unfold Exchange.clipsHeard clipsHeard
    rw [← events_seen, hi.trace]
  rw [hheard] at hqu
  refine ⟨early, rest, hqu, ⟨pre.filterMap seen?, ?_, ?_, ?_⟩, ?_⟩
  · rw [← hi.trace]
    exact hpre.filterMap seen?
  · rw [queued_seen]
    exact hearly
  · unfold Unmet
    rw [events_seen]
    exact hunmet
  · intro hch hgo
    rw [hi.state] at hrest
    refine hrest ?_ hgo
    simp [Drive.pipe, spread, hch]

end

end Duplex

end PenguinSync
