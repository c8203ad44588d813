import PenguinSync.Sync.World

/-!
# Clips over a line

Each line behaves as two sessions and the messages between them, whatever the
rest of both sides does, so what is heard at one end is what was handed over at
the other.
-/

namespace PenguinSync

open Lts Ffi

namespace Sync

/-- The two ends of a line; the phone presents `t`. -/
def Config.ends (cfg : Config) (t : Option TokenBytes) : Side → Endpoint
  | .left => cfg.phone.core.endpoint t
  | .right => cfg.desk.endpoint

/-- What shows of the line between connection `i` and session `p`. -/
def seen? (i : Nat) (p : SessionId) : Obs → Option Duplex.Obs
  | .desk (.out j o) => if j = i then some (.out .right o) else none
  | .desk (.handed _ _ j c) => if j = i then some (.queued .right c) else none
  | .phone (.core (.out q h o)) => if (q, h) = p then some (.out .left o) else none
  | .queued k c => if k = p then some (.queued .left c) else none
  | _ => none

def handedOver (p : SessionId) (tr : List Obs) : List Clip :=
  tr.filterMap fun
    | .queued k c => if k = p then some c else none
    | _ => none

def handedTo (i : Nat) (tr : List Obs) : List Clip := Daemon.handedTo i (deskTrace tr)

def deskTold (i : Nat) (tr : List Obs) : List SessionEvent := (Daemon.outsOn i (deskTrace tr)).filterMap Output.event?

def phoneTold (p : SessionId) (tr : List Obs) : List SessionEvent :=
  (Core.outsOn p (Android.App.coreTrace (phoneTrace tr))).filterMap Output.event?

/-- The names of both devices leave a frame the 90 bytes that the rest of a handshake may take. -/
structure Config.Named (cfg : Config) : Prop where
  desk : (utf8 cfg.desk.localId.name).length + 90 ≤ maxFrameLen
  phone : (utf8 cfg.phone.core.deviceName).length + 90 ≤ maxFrameLen

theorem Config.Named.fits {cfg : Config} (h : cfg.Named) (t : Option TokenBytes) :
    ∀ s, (Message.handshake (cfg.ends t s).machine.ownHandshake).Fits := by
  intro s
  have hlen := length_encode_handshake_le (h := (cfg.ends t s).machine.ownHandshake) (by cases s <;> rfl)
  unfold Message.Fits
  cases s with
  | left => exact Nat.le_trans hlen (Nat.le_trans (Nat.le_of_eq (Nat.add_comm ..)) h.phone)
  | right => exact Nat.le_trans hlen (Nat.le_trans (Nat.le_of_eq (Nat.add_comm ..)) h.desk)

namespace World

/-- The two sessions of a line, each new where it was not begun. -/
def duplex (cfg : Config) (i : Nat) (p : SessionId) (t : Option TokenBytes) (w : World) : Duplex where
  session
    | .left => (w.app.core.session p).getD (.new (cfg.ends t .left).machine)
    | .right => (w.daemon.session i).getD (.new (cfg.ends t .right).machine)
  chan := w.wire p

section
variable {cfg : Config} {lines : Lines} {w w' : World} {tr : List Obs} {i : Nat} {p : SessionId} {t : Option TokenBytes}
  {file : Option PersistedState} {clipboard : Content} {C : List Obs → World → Act → Prop}

/-! ## What shows of a line -/

theorem seen_desk {dos : List PenguinSync.Obs} (hh : Daemon.handedTo i dos = []) :
    (dos.map Obs.desk).filterMap (seen? i p) = (Daemon.outsOn i dos).map (.out .right) := by
  unfold Daemon.handedTo at hh
  unfold Daemon.outsOn
  rw [List.filterMap_map, List.map_filterMap]
  apply List.filterMap_congr
  intro o ho
  have hnone := List.filterMap_eq_nil_iff.mp hh o ho
  cases o with
  | out j x => by_cases hj : j = i <;> simp [seen?, hj]
  | handed loop d j c =>
    by_cases hj : j = i
    · simp [hj] at hnone
    · simp [seen?, hj]
  | _ => rfl

theorem seen_phone (pos : List Android.Obs) :
    (pos.map Obs.phone).filterMap (seen? i p) = (Core.outsOn p (Android.App.coreTrace pos)).map (.out .left) := by
  unfold Core.outsOn Android.App.coreTrace
  rw [List.filterMap_map, List.filterMap_filterMap, List.map_filterMap]
  apply List.filterMap_congr
  intro o _
  cases o with
  | core x =>
    cases x with
    | out q n y => by_cases hp : (q, n) = p <;> simp [seen?, Android.Obs.core?, hp]
    | _ => rfl
  | _ => rfl

theorem queued_left (tr : List Obs) : Duplex.queued .left (tr.filterMap (seen? i p)) = handedOver p tr := by
  unfold Duplex.queued handedOver
  rw [List.filterMap_filterMap]
  apply List.filterMap_congr
  intro o _
  cases o with
  | desk x =>
    cases x with
    | out j o => by_cases hj : j = i <;> simp [seen?, Duplex.Obs.queued?, hj]
    | handed loop d j c => by_cases hj : j = i <;> simp [seen?, Duplex.Obs.queued?, hj]
    | _ => rfl
  | phone x =>
    cases x with
    | core y =>
      cases y with
      | out q n o => by_cases hp : (q, n) = p <;> simp [seen?, Duplex.Obs.queued?, hp]
      | _ => rfl
    | _ => rfl
  | queued k c => by_cases hk : k = p <;> simp [seen?, Duplex.Obs.queued?, hk]

theorem queued_right (tr : List Obs) : Duplex.queued .right (tr.filterMap (seen? i p)) = handedTo i tr := by
  unfold Duplex.queued handedTo Daemon.handedTo deskTrace
  rw [List.filterMap_filterMap, List.filterMap_filterMap]
  apply List.filterMap_congr
  intro o _
  cases o with
  | desk x =>
    cases x with
    | out j o => by_cases hj : j = i <;> simp [seen?, Duplex.Obs.queued?, Obs.desk?, hj]
    | handed loop d j c => by_cases hj : j = i <;> simp [seen?, Duplex.Obs.queued?, Obs.desk?, hj]
    | _ => rfl
  | phone x =>
    cases x with
    | core y =>
      cases y with
      | out q n o => by_cases hp : (q, n) = p <;> simp [seen?, Duplex.Obs.queued?, Obs.desk?, hp]
      | _ => rfl
    | _ => rfl
  | queued k c => by_cases hk : k = p <;> simp [seen?, Duplex.Obs.queued?, Obs.desk?, hk]

theorem events_right (tr : List Obs) : Duplex.events .right (tr.filterMap (seen? i p)) = deskTold i tr := by
  unfold Duplex.events deskTold Daemon.outsOn deskTrace
  congr 1
  rw [List.filterMap_filterMap, List.filterMap_filterMap]
  apply List.filterMap_congr
  intro o _
  cases o with
  | desk x =>
    cases x with
    | out j o => by_cases hj : j = i <;> simp [seen?, Duplex.Obs.out?, Obs.desk?, hj]
    | handed loop d j c => by_cases hj : j = i <;> simp [seen?, Duplex.Obs.out?, Obs.desk?, hj]
    | _ => rfl
  | phone x =>
    cases x with
    | core y =>
      cases y with
      | out q n o => by_cases hp : (q, n) = p <;> simp [seen?, Duplex.Obs.out?, Obs.desk?, hp]
      | _ => rfl
    | _ => rfl
  | queued k c => by_cases hk : k = p <;> simp [seen?, Duplex.Obs.out?, Obs.desk?, hk]

theorem events_left (tr : List Obs) : Duplex.events .left (tr.filterMap (seen? i p)) = phoneTold p tr := by
  unfold Duplex.events phoneTold Core.outsOn Android.App.coreTrace phoneTrace
  congr 1
  rw [List.filterMap_filterMap, List.filterMap_filterMap, List.filterMap_filterMap]
  apply List.filterMap_congr
  intro o _
  cases o with
  | desk x =>
    cases x with
    | out j o => by_cases hj : j = i <;> simp [seen?, Duplex.Obs.out?, Obs.phone?, hj]
    | handed loop d j c => by_cases hj : j = i <;> simp [seen?, Duplex.Obs.out?, Obs.phone?, hj]
    | _ => rfl
  | phone x =>
    cases x with
    | core y =>
      cases y with
      | out q n o => by_cases hp : (q, n) = p <;> simp [seen?, Duplex.Obs.out?, Obs.phone?, Android.Obs.core?, hp]
      | _ => rfl
    | _ => rfl
  | queued k c => by_cases hk : k = p <;> simp [seen?, Duplex.Obs.out?, Obs.phone?, hk]

/-! ## A step, seen from a line -/

theorem duplex_congr (hleft : (w'.duplex cfg i p t).session .left = (w.duplex cfg i p t).session .left)
    (hright : (w'.duplex cfg i p t).session .right = (w.duplex cfg i p t).session .right) (hwire : w'.wire p = w.wire p) :
    w'.duplex cfg i p t = w.duplex cfg i p t := by
  have hsession : (w'.duplex cfg i p t).session = (w.duplex cfg i p t).session := by
    funext s
    cases s with
    | left => exact hleft
    | right => exact hright
  exact (Duplex.mk.injEq ..).mpr ⟨hsession, hwire⟩

theorem duplex_step {d d' : Duplex} {s : Side} {b : Session.Act} {ses : Session} {rest : List Message} {outs : List Output}
    (ht : Duplex.takes b (d.chan s) = some rest) (hs : (d.session s).step b = some (ses, outs))
    (hsession : d'.session = Function.update d.session s ses)
    (hchan : d'.chan = Function.update (Function.update d.chan s rest) s.other
      (d.chan s.other ++ outs.filterMap Output.sent?)) :
    Duplex.step d (.step s b) = some (d', outs.map (.out s)) := by
  have hd : d' = ⟨Function.update d.session s ses, Function.update (Function.update d.chan s rest) s.other
      (d.chan s.other ++ outs.filterMap Output.sent?)⟩ := by
    rw [← hsession, ← hchan]
  rw [hd]
  simp only [Duplex.step, ht, hs]

/-- How a line goes on: not at all, or by a step of its own. -/
inductive LineMove (cfg : Config) (i : Nat) (p : SessionId) (t : Option TokenBytes) (w w' : World) (os : List Obs) : Prop
  | still : w'.duplex cfg i p t = w.duplex cfg i p t → os.filterMap (seen? i p) = [] → LineMove cfg i p t w w' os
  | moves (b : Duplex.Act) : Duplex.Careful [] (w.duplex cfg i p t) b →
      (w.duplex cfg i p t).step b = some (w'.duplex cfg i p t, os.filterMap (seen? i p)) → LineMove cfg i p t w w' os

theorem desk_line {b : Daemon.Act} {daemon : Daemon} {dos dtr : List PenguinSync.Obs} {wire : Wire} (hl : lines i = some p)
    (hr : Run (Daemon.system cfg.desk file clipboard) always dtr w.daemon)
    (hd : Daemon.step cfg.desk w.daemon b = some (daemon, dos)) (hw : w.deskWire lines b dos = some wire) :
    LineMove cfg i p t w { w with daemon, wire } (dos.map .desk) := by
  cases Daemon.step_part hd i with
  | still hses hout hhand hb =>
    refine .still (duplex_congr rfl ?_ (deskWire_other hl hb hw)) ?_
    · exact congrArg (Option.getD · _) hses
    · rw [seen_desk hhand, hout, List.map_nil]
  | accepted hnone hses hout hhand hb =>
    refine .still (duplex_congr rfl ?_ (deskWire_other hl hb hw)) ?_
    · show (daemon.session i).getD _ = (w.daemon.session i).getD _
      rw [hnone, hses]
      rfl
    · rw [seen_desk hhand, hout, List.map_nil]
  | drove ca ses ses' outs hb hses hstep hses' hdos =>
    subst hb hdos
    have houts : Daemon.outsOn i (outs.map (.out i)) = outs := by
      unfold Daemon.outsOn
      rw [List.filterMap_map]
      simp
    have hhand : Daemon.handedTo i (outs.map (.out i)) = [] := Daemon.handedTo_nil (by simp)
    simp only [deskWire, hl, houts] at hw
    obtain ⟨rest, hrest, hwire, -⟩ := carry_some hw
    have hright : (w.duplex cfg i p t).session .right = ses := by
      show (w.daemon.session i).getD _ = ses
      rw [hses]
      rfl
    refine .moves (.step .right (ca.at_ w.daemon.now)) trivial ?_
    rw [seen_desk hhand, houts]
    refine duplex_step hrest (by rw [hright]; exact hstep) ?_ hwire
    funext s
    cases s with
    | left => rfl
    | right =>
      show (daemon.session i).getD _ = _
      rw [hses', Function.update_self]
      rfl
  | handed loop target c hb hses hdos =>
    subst hdos
    obtain ⟨hlt, hfits⟩ := Daemon.run_hands hr hd (List.mem_singleton_self _)
    obtain ⟨ses, hsome⟩ : ∃ ses, w.daemon.session i = some ses := by
      unfold Daemon.session
      rw [List.getElem?_eq_getElem hlt]
      exact ⟨_, rfl⟩
    refine .moves (.queue .right c) hfits ?_
    have hseen : ([PenguinSync.Obs.handed loop target i c].map Obs.desk).filterMap (seen? i p) = [.queued .right c] := by
      simp [seen?]
    rw [hseen]
    simp only [Duplex.step, Option.some.injEq, Prod.mk.injEq, and_true]
    refine (Duplex.mk.injEq ..).mpr ⟨?_, (deskWire_other hl hb hw).symm⟩
    funext s
    cases s with
    | left => rfl
    | right =>
      show _ = (daemon.session i).getD _
      rw [hses, hsome, Function.update_self]
      show Session.sendClipboard ((w.daemon.session i).getD _) c = _
      rw [hsome]
      rfl

theorem queues_nil {b : Android.Act} (hb : b ≠ .sendClipboard) : w.queues cfg b = [] := by
  cases b with
  | sendClipboard => exact absurd rfl hb
  | _ => rfl

theorem seen_core {pos : List Android.Obs} {qs : List Obs} (hout : Core.outsOn p (Android.App.coreTrace pos) = [])
    (hq : qs.filterMap (seen? i p) = []) : (pos.map Obs.phone ++ qs).filterMap (seen? i p) = [] := by
  rw [List.filterMap_append, seen_phone, hout, hq]
  rfl

/-- How the core's part in a step moves a line on. A session that was not there may begin with any token. -/
theorem core_line {b : Android.Act} {a : Ffi.Act} {app : Android.App} {pos : List Android.Obs} {wire : Wire}
    (hl : lines i = some p) (hb : b ≠ .sendClipboard) (ha : ∀ text, a ≠ .sendClipboard text)
    (hdrive : ∀ act, b = .core (.run p.1 (.drive p.2 act)) ↔ a = .run p.1 (.drive p.2 act))
    (hpart : Core.Part cfg.phone.core p w.app.core app.core a (Android.App.coreTrace pos))
    (hw : w.phoneWire lines b pos = some wire) :
    (∀ t, LineMove cfg i p t w { w with app, wire } (pos.map .phone ++ w.queues cfg b)) ∨
      w.app.core.session p = none ∧ (app.core.session p).isSome = true ∧
        ∃ t, LineMove cfg i p t w { w with app, wire } (pos.map .phone ++ w.queues cfg b) := by
  rw [queues_nil hb]
  have hwire : (∀ act, a ≠ .run p.1 (.drive p.2 act)) → wire p = w.wire p :=
    fun hne => phoneWire_other (fun act hact => hne act ((hdrive act).mp hact)) hw
  cases hpart with
  | still hses hout hne _ =>
    refine Or.inl fun t => .still (duplex_congr ?_ rfl (hwire hne)) (seen_core hout rfl)
    exact congrArg (Option.getD · _) hses
  | opened t hnone hses hout hne _ =>
    refine Or.inr ⟨hnone, by rw [hses]; rfl, t, .still (duplex_congr ?_ rfl (hwire hne)) (seen_core hout rfl)⟩
    show (app.core.session p).getD _ = (w.app.core.session p).getD _
    rw [hnone, hses]
    rfl
  | drove act ses ses' outs hact hses hstep hses' hcos =>
    left
    intro t
    have hbact : b = .core (.run p.1 (.drive p.2 act)) := (hdrive act).mpr hact
    have houts : Core.outsOn p (Android.App.coreTrace pos) = outs := by
      rw [hcos]
      exact Core.outsOn_self p.1 p.2 outs
    subst hbact
    have hline : (lines.symm (p.1, p.2)).isSome = true := by
      rw [(lines.eq_some_iff.mpr hl : lines.symm p = some i)]
      rfl
    simp only [phoneWire, hline, if_true] at hw
    obtain ⟨rest, hrest, hcarry, -⟩ := carry_some hw
    rw [show Core.outsOn (p.1, p.2) (Android.App.coreTrace pos) = outs from houts] at hcarry
    have hleft : (w.duplex cfg i p t).session .left = ses := by
      show (w.app.core.session p).getD _ = ses
      rw [hses]
      rfl
    refine .moves (.step .left act) trivial ?_
    rw [List.append_nil, seen_phone, houts]
    refine duplex_step hrest (by rw [hleft]; exact hstep) ?_ hcarry
    funext s
    cases s with
    | left =>
      show (app.core.session p).getD _ = _
      rw [hses', Function.update_self]
      rfl
    | right => rfl
  | queued text clip hact => exact absurd hact (ha text)

/-- A tap on the button moves on the line of the session in the slot, if there is one. -/
theorem tap_line {app : Android.App} {pos : List Android.Obs} {wire : Wire} (ho : w.app.core.Opened)
    (hst : w.app.core.Started) (hown : ∀ q < w.app.core.started, (w.app.core.runs q).Own cfg.phone.core)
    (hs : ∀ k, (w.app.core.runs k).Sound)
    (hp : Android.App.step cfg.phone w.app .sendClipboard = some (app, pos))
    (hw : w.phoneWire lines .sendClipboard pos = some wire) (t : Option TokenBytes) :
    LineMove cfg i p t w { w with app, wire } (pos.map .phone ++ w.queues cfg .sendClipboard) := by
  have hwire : wire p = w.wire p := phoneWire_other (by simp) hw
  simp only [Android.App.step, Option.ite_none_right_eq_some, Option.some.injEq] at hp
  obtain ⟨-, hp⟩ := hp
  unfold Android.App.sendClipboardFromFocusedContext at hp
  unfold queues
  cases htext : w.app.clipText cfg.phone with
  | none =>
    rw [htext] at hp
    cases hp
    exact .still (duplex_congr rfl rfl hwire) rfl
  | some text =>
    rw [htext] at hp
    cases hp
    have hstep : Core.step cfg.phone.core w.app.core (.sendClipboard text) =
        some ((w.app.core.sendClipboard cfg.phone.core text).1,
          [.returned (w.app.core.sendClipboard cfg.phone.core text).2]) := rfl
    cases Core.step_part hst hown hs hstep p with
    | still hses hout _ hslot =>
      refine .still (duplex_congr ?_ rfl hwire) (seen_core hout ?_)
      · exact congrArg (Option.getD · _) hses
      · simp only
        split
        · rename_i clip k hclip hk
          have hne : k ≠ p := by
            rintro rfl
            exact hslot text clip rfl hclip hk
          simp [seen?, hne]
        · rfl
    | opened _ _ _ _ _ hne => exact absurd rfl (hne text)
    | drove act _ _ _ hact => cases hact
    | queued text' clip hact hclip hslot hses hout =>
      cases hact
      obtain ⟨ses, hsome⟩ := Option.isSome_iff_exists.mp (ho.slot p hslot)
      refine .moves (.queue .left clip) (clip_fits (Clip.valid_of_new hclip).1) ?_
      simp only [hclip, hslot]
      rw [List.filterMap_append, seen_phone]
      have hnil : Core.outsOn p (Android.App.coreTrace [.core (.returned (w.app.core.sendClipboard cfg.phone.core text).2),
          .sent (.of (w.app.core.sendClipboard cfg.phone.core text).2)]) = [] := hout
      rw [hnil]
      simp only [Duplex.step, List.map_nil, List.nil_append, Option.some.injEq, Prod.mk.injEq]
      refine ⟨(Duplex.mk.injEq ..).mpr ⟨?_, hwire.symm⟩, ?_⟩
      · funext s
        cases s with
        | left =>
          show _ = Option.getD (Core.session _ p) _
          rw [hses, hsome, Function.update_self]
          show Session.sendClipboard ((w.app.core.session p).getD _) clip = _
          rw [hsome]
          rfl
        | right => rfl
      · simp [seen?]

theorem allowed_step {a : Ffi.Act} {app : Android.App} {pos : List Android.Obs}
    (h : Android.App.step cfg.phone w.app (.core a) = some (app, pos)) :
    w.app.allows a = true ∧ w.app.core.step cfg.phone.core a = some (app.core, Android.App.coreTrace pos) := by
  simp only [Android.App.step, Option.ite_none_right_eq_some] at h
  obtain ⟨hallows, h⟩ := h
  refine ⟨hallows, ?_⟩
  split at h
  · rename_i c cos hs
    cases h
    rw [Android.App.foldl_called, Android.App.coreTrace_map]
    exact hs
  · cases h

theorem phone_line {b : Android.Act} {app : Android.App} {pos ptr : List Android.Obs} {wire : Wire} (hl : lines i = some p)
    (hr : Run (Android.App.system cfg.phone) always ptr w.app) (hp : Android.App.step cfg.phone w.app b = some (app, pos))
    (hw : w.phoneWire lines b pos = some wire) :
    ((w.app.core.session p).isSome = true → (app.core.session p).isSome = true) ∧
    ((∀ t, LineMove cfg i p t w { w with app, wire } (pos.map .phone ++ w.queues cfg b)) ∨
      w.app.core.session p = none ∧ (app.core.session p).isSome = true ∧
        ∃ t, LineMove cfg i p t w { w with app, wire } (pos.map .phone ++ w.queues cfg b)) := by
  obtain ⟨hcr, hhandled⟩ := Android.App.run_core hr
  have hst := Core.run_started hcr
  have hown := Core.run_own hcr
  have hs := Core.run_sound hcr
  have hcore := Android.App.step_core hhandled hp
  constructor
  · intro hsome
    rcases hcore with ⟨a, -, ha⟩ | ⟨hsame, -⟩
    · exact (Core.step_part hst hown hs ha p).isSome hsome
    · rwa [hsame]
  by_cases hb : b = .sendClipboard
  · subst hb
    exact Or.inl (tap_line (Core.run_opened hcr) hst hown hs hp hw)
  by_cases hc : ∃ a, b = .core a
  · obtain ⟨a, rfl⟩ := hc
    obtain ⟨hallows, hstep⟩ := allowed_step hp
    have ha : ∀ text, a ≠ .sendClipboard text := by
      rintro text rfl
      cases hallows
    exact core_line hl hb ha (fun act => by simp) (Core.step_part hst hown hs hstep p) hw
  have hne : ∀ act, b ≠ .core (.run p.1 (.drive p.2 act)) := fun act hact => hc ⟨_, hact⟩
  rcases hcore with ⟨a, hcall, ha⟩ | ⟨hsame, hnil⟩
  · have hpart := Core.step_part hst hown hs ha p
    cases b with
    | core c => exact absurd ⟨c, rfl⟩ hc
    | startPairing =>
      obtain ⟨q, -, rfl⟩ := hcall
      exact core_line hl hb (by simp) (by simp) hpart hw
    | pair decoded endpoint =>
      cases hcall
      exact core_line hl hb (by simp) (by simp) hpart hw
    | sendClipboard => exact absurd rfl hb
    | _ => exact absurd hcall id
  · left
    intro t
    rw [queues_nil hb]
    refine .still (duplex_congr ?_ rfl (phoneWire_other hne hw)) (seen_core ?_ rfl)
    · show (app.core.session p).getD _ = _
      rw [hsame]
      rfl
    · rw [hnil]
      rfl

/-! ## A run, seen from a line -/

/-- The two sessions of the line have run as a pair whose left side presents `t`. -/
def Paired (cfg : Config) (i : Nat) (p : SessionId) (tr : List Obs) (w : World) (t : Option TokenBytes) : Prop :=
  Run (Duplex.system (cfg.ends t)) Duplex.Careful (tr.filterMap (seen? i p)) (w.duplex cfg i p t)

/-- While the phone has not begun, the token may still be any. -/
structure Lined (cfg : Config) (i : Nat) (p : SessionId) (tr : List Obs) (w : World) : Prop where
  paired : ∃ t, Paired cfg i p tr w t
  unbegun : w.app.core.session p = none → ∀ t, Paired cfg i p tr w t

theorem Paired.move {os : List Obs} (hi : Paired cfg i p tr w t) (h : LineMove cfg i p t w w' os) :
    Paired cfg i p (tr ++ os) w' t := by
  unfold Paired
  rw [List.filterMap_append]
  cases h with
  | still hw hos =>
    rw [hw, hos, List.append_nil]
    exact hi
  | moves b hc hs => exact .step hi hc hs

theorem Lined.step {a : Act} {os : List Obs} (hi : Lined cfg i p tr w) (hl : lines i = some p)
    (hr : Run (system cfg lines file clipboard) C tr w) (h : step cfg lines w a = some (w', os)) :
    Lined cfg i p (tr ++ os) w' := by
  cases step_move h with
  | desk _ hd hw =>
    have hmove : ∀ t, LineMove cfg i p t w _ _ := fun t => desk_line hl (run_desk hr) hd hw
    obtain ⟨t, ht⟩ := hi.paired
    exact ⟨⟨t, ht.move (hmove t)⟩, fun hnone t => (hi.unbegun hnone t).move (hmove t)⟩
  | @phone b app pos wire hp hw =>
    obtain ⟨hsome, hmove⟩ := phone_line hl (run_phone hr) hp hw
    have hback : app.core.session p = none → w.app.core.session p = none := by
      intro hnone
      by_contra hne
      have := hsome (Option.isSome_iff_ne_none.mpr hne)
      rw [hnone] at this
      cases this
    rcases hmove with hmove | ⟨hnone, hsome', t, hmove⟩
    · obtain ⟨t, ht⟩ := hi.paired
      exact ⟨⟨t, ht.move (hmove t)⟩, fun hnone t => (hi.unbegun (hback hnone) t).move (hmove t)⟩
    · refine ⟨⟨t, (hi.unbegun hnone t).move hmove⟩, fun hnone' => ?_⟩
      rw [show app.core.session p = none from hnone'] at hsome'
      cases hsome'

theorem run_lined (hl : lines i = some p) (h : Run (system cfg lines file clipboard) C tr w) : Lined cfg i p tr w := by
  refine h.invariant (I := fun tr w => Lined cfg i p tr w) (fun w h0 => ?_)
    (fun tr w a w' os hr hi _ hs => hi.step hl hr hs)
  obtain ⟨hd, ⟨peers, tmp, clip, ha⟩, hw⟩ := h0
  have hnew : ∀ t, Paired cfg i p [] w t := by
    intro t
    refine .init ((Duplex.mk.injEq ..).mpr ⟨?_, ?_⟩)
    · funext s
      cases s with
      | left =>
        show (w.app.core.session p).getD _ = _
        rw [ha]
        rfl
      | right =>
        show (w.daemon.session i).getD _ = _
        rw [hd]
        rfl
    · show w.wire p = _
      rw [hw]
  exact ⟨⟨none, hnew none⟩, fun _ t => hnew t⟩

/-! ## Clips over a line -/

theorem desk_hears (hnames : cfg.Named) (hl : lines i = some p) (h : Run (system cfg lines file clipboard) C tr w) :
    ∃ early rest, handedOver p tr = early ++ (deskTold i tr).filterMap SessionEvent.clip? ++ rest ∧
      (∃ pre, pre <+: tr ∧ early <+: handedOver p pre ∧ ∀ ev ∈ phoneTold p pre, ev.isPeerHandshake = false) ∧
      ∀ ses, w.app.core.session p = some ses → w.wire p .right = [] → ses.stage ≠ .done → rest = ses.commands := by
  obtain ⟨t, ht⟩ := (run_lined hl h).paired
  obtain ⟨early, rest, hq, ⟨pre, hpre, hearly, hunmet⟩, hrest⟩ := Duplex.run_hears (hnames.fits t) ht .right
  obtain ⟨pre', hpre', rfl⟩ := List.prefix_filterMap_iff.mp hpre
  have hother : Side.right.other = .left := rfl
  rw [hother, queued_left] at hq hearly
  unfold Duplex.clipsHeard at hq
  rw [events_right] at hq
  refine ⟨early, rest, hq, ⟨pre', hpre', hearly, fun ev hev => hunmet ev ?_⟩, fun ses hses hwire hgo => ?_⟩
  · rw [hother, events_left]
    exact hev
  · have hleft : (w.duplex cfg i p t).session .left = ses := by
      show (w.app.core.session p).getD _ = ses
      rw [hses]
      rfl
    rw [hother, hleft] at hrest
    exact hrest hwire hgo

theorem phone_hears (hnames : cfg.Named) (hl : lines i = some p) (h : Run (system cfg lines file clipboard) C tr w) :
    ∃ early rest, handedTo i tr = early ++ (phoneTold p tr).filterMap SessionEvent.clip? ++ rest ∧
      (∃ pre, pre <+: tr ∧ early <+: handedTo i pre ∧ ∀ ev ∈ deskTold i pre, ev.isPeerHandshake = false) ∧
      ∀ ses, w.daemon.session i = some ses → w.wire p .left = [] → ses.stage ≠ .done → rest = ses.commands := by
  obtain ⟨t, ht⟩ := (run_lined hl h).paired
  obtain ⟨early, rest, hq, ⟨pre, hpre, hearly, hunmet⟩, hrest⟩ := Duplex.run_hears (hnames.fits t) ht .left
  obtain ⟨pre', hpre', rfl⟩ := List.prefix_filterMap_iff.mp hpre
  have hother : Side.left.other = .right := rfl
  rw [hother, queued_right] at hq hearly
  unfold Duplex.clipsHeard at hq
  rw [events_left] at hq
  refine ⟨early, rest, hq, ⟨pre', hpre', hearly, fun ev hev => hunmet ev ?_⟩, fun ses hses hwire hgo => ?_⟩
  · rw [hother, events_right]
    exact hev
  · have hright : (w.duplex cfg i p t).session .right = ses := by
      show (w.daemon.session i).getD _ = ses
      rw [hses]
      rfl
    rw [hother, hright] at hrest
    exact hrest hwire hgo

end

end World

/-! ## Two samples -/

open Daemon.Sample in
def home : Config := ⟨cfg, ⟨⟨phone, "phone", crypto.blake3⟩, fun _ => "", true⟩, phoneKey⟩

def homeLine : Lines := PEquiv.single 0 (0, 0)

namespace World

def atHome : World := ⟨.initial none Daemon.Sample.empty, .new none none none, fun _ _ => []⟩

def drives (b : Session.Act) : Android.Act := .core (.run 0 (.drive 0 b))

/-- The phone scans the desktop's code and is confirmed; both have met. -/
def met : List Act :=
  Daemon.Sample.mint.map .desk ++
    [.startPairing, .pair (.ok Ffi.desk) (.ok ()), .core (.run 0 (.dial true))].map .phone ++
    [.desk (.accept (Daemon.Sample.addr 2) Daemon.Sample.phoneKey)] ++
    [.core (.run 0 (.connect true)), .core (.run 0 (.openBi true)), drives (.start true)].map .phone ++
    ([.connection 0 (.start true), .orchestrate true Daemon.Sample.phone,
      .connection 0 (.receive (encode (.handshake (home.ends (some Daemon.Sample.token) .left).machine.ownHandshake)) 0 true),
      .drain 0] ++ Daemon.Sample.turns 5 ++ [.confirmPairing (toHex Daemon.Sample.phone) true] ++
      Daemon.Sample.turns 9 : List Daemon.Act).map .desk ++
    [drives (.receive (encode (.handshake (home.ends none .right).machine.ownHandshake)) 0 0 true), .core (.run 0 .drain),
      .core (.forward 0), .core (.forward 0)].map .phone

/-- "A" is sent from the phone, and "B" is copied on the desktop. -/
def shared : List Act :=
  met ++ [.copy (some (Android.newPlainText "A")), .sendClipboard, drives (.command true)].map .phone ++
    ([.probe, .copy ⟨mimeTextPlain, [66]⟩] ++ List.replicate 5 (.watch true Daemon.Sample.phone) ++
      [.connection 0 (.receive (encode (.clipboard Daemon.Sample.clipA)) 0 true), .connection 0 (.command true)] :
      List Daemon.Act).map .desk ++
    [.phone (drives (.receive (encode (.clipboard Daemon.Sample.clipB)) 0 0 true))]

theorem home_named : home.Named := ⟨by decide +kernel, by decide +kernel⟩

theorem run_atHome {as : List Act}
    (he : (exec (system home homeLine none Daemon.Sample.empty) anyway [] atHome as).isSome = true) :
    Run (system home homeLine none Daemon.Sample.empty) always
      ((exec (system home homeLine none Daemon.Sample.empty) anyway [] atHome as).get he).1
      ((exec (system home homeLine none Daemon.Sample.empty) anyway [] atHome as).get he).2 :=
  run_of_anyway (M := system home homeLine none Daemon.Sample.empty) (s := atHome)
    ⟨rfl, ⟨none, none, none, rfl⟩, rfl⟩ he

theorem shared_enabled :
    (exec (system home homeLine none Daemon.Sample.empty) anyway [] atHome shared).isSome = true := by
  decide +kernel

end World

end Sync

end PenguinSync
