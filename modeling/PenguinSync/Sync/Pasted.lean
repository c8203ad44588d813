import PenguinSync.Daemon.Heard
import PenguinSync.Sync.Lines

/-!
# What reaches the clipboards

A clipboard is given what its side was told, and what is told over a line was
handed over at its other end: no text is made up on the way.
-/

namespace PenguinSync

open Lts Ffi

namespace Sync

namespace World

section
variable {cfg : Config} {lines : Lines} {w w' : World} {tr : List Obs} {i : Nat}
  {file : Option PersistedState} {clipboard : Content} {C : List Obs → World → Act → Prop}

/-! ## The phone's clipboard -/

theorem phoneTold_eq (q : Nat) (h : SessionHandle) (tr : List Obs) :
    phoneTold (q, h) tr = Core.reportedOn q h (Android.App.coreTrace (phoneTrace tr)) := by
  unfold phoneTold Core.outsOn Core.reportedOn
  rw [List.filterMap_filterMap]
  apply List.filterMap_congr
  intro o _
  cases o with
  | out k n x => by_cases hk : k = q ∧ n = h <;> simp [Ffi.Obs.reportOn?, hk]
  | _ => rfl

theorem mem_reported {q : Nat} {ev : SessionEvent} {ctr : List Ffi.Obs} (h : ev ∈ Core.reported q ctr) :
    ∃ n, ev ∈ Core.reportedOn q n ctr := by
  obtain ⟨o, ho, hev⟩ := List.mem_filterMap.mp h
  cases o with
  | out k n x =>
    refine ⟨n, List.mem_filterMap.mpr ⟨_, ho, ?_⟩⟩
    simp only [Ffi.Obs.report?, Option.ite_none_right_eq_some] at hev
    simp [Ffi.Obs.reportOn?, hev]
  | _ => cases hev

/-- A text that a pairing writes was in a clip that one of its sessions reported. -/
theorem written_reported {q : Nat} {atr : List Android.Obs} {app : Android.App}
    (hr : Run (Android.App.system cfg.phone) always atr app) {text : String} (ht : text ∈ Android.App.written q atr) :
    ∃ n c, .clipboardReceived c ∈ Core.reportedOn q n (Android.App.coreTrace atr) ∧ fromUtf8 c.content = some text := by
  have hw : Android.App.written q atr ++ Android.App.unwritten (app.callbacks q) =
    (Core.told q (Android.App.coreTrace atr)).filterMap Android.text? := Android.App.run_wrote hr q
  have hmem : text ∈ (Core.told q (Android.App.coreTrace atr)).filterMap Android.text? := by
    rw [← hw]
    exact List.mem_append_left _ ht
  obtain ⟨e, he, htext⟩ := List.mem_filterMap.mp hmem
  cases e with
  | clipboardReceived x =>
    cases htext
    obtain ⟨lost, hkept, -⟩ := (Core.run_telling (Android.App.run_core hr).1 q).1.kept
    have htold : .clipboardReceived text ∈ (Core.reported q (Android.App.coreTrace atr)).filterMap Core.tell := by
      rw [← hkept]
      exact List.mem_append_left _ (List.mem_append_left _ (List.mem_filter.mpr ⟨he, rfl⟩))
    obtain ⟨ev, hev, htell⟩ := List.mem_filterMap.mp htold
    obtain ⟨n, hn⟩ := mem_reported hev
    cases ev with
    | clipboardReceived c =>
      refine ⟨n, c, hn, ?_⟩
      obtain ⟨x, hx, hxt⟩ := Option.map_eq_some_iff.mp (show (fromUtf8 c.content).map CoreEvent.clipboardReceived =
        some (.clipboardReceived text) from htell)
      cases hxt
      exact hx
    | peerHandshake | ponged | closed => cases htell
  | _ => cases htext

theorem handedTo_mem {c : Clip} (h : c ∈ handedTo i tr) : ∃ loop d, .desk (.handed loop d i c) ∈ tr := by
  obtain ⟨o, ho, hc⟩ := List.mem_filterMap.mp h
  obtain ⟨x, hx, hxo⟩ := List.mem_filterMap.mp ho
  cases o with
  | handed loop d j c' =>
    simp only [Option.ite_none_right_eq_some, Option.some.injEq] at hc
    obtain ⟨rfl, rfl⟩ := hc
    cases x with
    | desk y =>
      cases hxo
      exact ⟨loop, d, hx⟩
    | _ => cases hxo
  | _ => cases hc

theorem run_step {a : Act} {os : List Obs} (hr : Run (system cfg lines file clipboard) C tr w) (hc : C tr w a)
    (hs : step cfg lines w a = some (w', os)) : Run (system cfg lines file clipboard) C (tr ++ os) w' := .step hr hc hs

theorem mem_written {q : Nat} {text : String} {os : List Obs} :
    text ∈ Android.App.written q (phoneTrace os) ↔ .phone (.wrote q text) ∈ os := by
  constructor
  · intro h
    obtain ⟨x, hx, htext⟩ := List.mem_filterMap.mp h
    obtain ⟨o, ho, hox⟩ := List.mem_filterMap.mp hx
    cases o with
    | phone y =>
      cases hox
      cases x with
      | wrote k t =>
        simp only [Android.Obs.wrote?, Option.ite_none_right_eq_some, Option.some.injEq] at htext
        obtain ⟨rfl, rfl⟩ := htext
        exact ho
      | _ => cases htext
    | _ => cases hox
  · intro h
    refine List.mem_filterMap.mpr ⟨.wrote q text, ?_, by simp [Android.Obs.wrote?]⟩
    exact List.mem_filterMap.mpr ⟨_, h, rfl⟩

/-- When a pairing whose sessions are all with the desktop writes a text to the
phone's clipboard, the desktop has handed that text over before. -/
theorem run_pastes {a : Act} {os : List Obs} {q : Nat} {text : String} (hnames : cfg.Named)
    (hr : Run (system cfg lines file clipboard) always tr w) (hs : step cfg lines w a = some (w', os))
    (hq : ∀ n, (w'.app.core.session (q, n)).isSome = true → ∃ i, lines i = some (q, n))
    (ht : .phone (.wrote q text) ∈ os) :
    ∃ i n loop d c, lines i = some (q, n) ∧ .desk (.handed loop d i c) ∈ tr ∧ fromUtf8 c.content = some text := by
  have hr' : Run (system cfg lines file clipboard) always (tr ++ os) w' := run_step hr trivial hs
  have hphone := run_phone hr'
  have hwritten : text ∈ Android.App.written q (phoneTrace (tr ++ os)) := mem_written.mpr (List.mem_append_right _ ht)
  obtain ⟨n, c, hc, htext⟩ := written_reported hphone hwritten
  obtain ⟨i, hl⟩ : ∃ i, lines i = some (q, n) := by
    apply hq
    by_contra hnone
    rw [Bool.not_eq_true, Option.isSome_eq_false_iff, Option.isNone_iff_eq_none] at hnone
    rw [(Core.run_telling (Android.App.run_core hphone).1 q).1.unopened n hnone] at hc
    cases hc
  obtain ⟨early, rest, hto, -, -⟩ := phone_hears hnames hl hr'
  have hmem : c ∈ handedTo i (tr ++ os) := by
    rw [hto, phoneTold_eq]
    exact List.mem_append_left _ (List.mem_append_right _ (List.mem_filterMap.mpr ⟨_, hc, rfl⟩))
  obtain ⟨loop, d, hmem⟩ := handedTo_mem hmem
  rcases List.mem_append.mp hmem with hmem | hmem
  · exact ⟨i, n, loop, d, c, hl, hmem, htext⟩
  · -- the desktop does nothing in a step of the phone
    cases step_move hs with
    | desk => simp at ht
    | phone =>
      rcases List.mem_append.mp hmem with hmem | hmem
      · simp at hmem
      · obtain ⟨p, c', hx⟩ := queues_queued hmem
        cases hx

/-! ## The desktop's clipboard -/

theorem mem_deskTrace {o : PenguinSync.Obs} {os : List Obs} : o ∈ deskTrace os ↔ .desk o ∈ os := by
  constructor
  · intro h
    obtain ⟨x, hx, hxo⟩ := List.mem_filterMap.mp h
    cases x with
    | desk y =>
      cases hxo
      exact hx
    | _ => cases hxo
  · intro h
    exact List.mem_filterMap.mpr ⟨_, h, rfl⟩

theorem handedOver_mem {p : SessionId} {c : Clip} (h : c ∈ handedOver p tr) : .queued p c ∈ tr := by
  obtain ⟨o, ho, hc⟩ := List.mem_filterMap.mp h
  cases o with
  | queued k c' =>
    simp only [Option.ite_none_right_eq_some, Option.some.injEq] at hc
    obtain ⟨rfl, rfl⟩ := hc
    exact ho
  | _ => cases hc

/-- When the daemon writes a clip to the desktop's clipboard, one of its sessions has
reported that clip; and if the session is with the phone, the app has handed it over before. -/
theorem run_applies {a : Act} {os : List Obs} {d : DeviceId} {c : Clip} (hnames : cfg.Named)
    (hr : Run (system cfg lines file clipboard) C tr w) (hs : step cfg lines w a = some (w', os))
    (ho : .desk (.applied d c) ∈ os) :
    ∃ i, .clipboardReceived c ∈ deskTold i tr ∧ ∀ p, lines i = some p → .queued p c ∈ tr := by
  cases step_move hs with
  | desk _ hd _ =>
    have happlied : .applied d c ∈ deskTrace (List.map Obs.desk _) := mem_deskTrace.mpr ho
    rw [deskTrace_desk] at happlied
    obtain ⟨i, hi⟩ := Daemon.applied_told (run_desk hr) hd happlied
    refine ⟨i, hi, fun p hl => handedOver_mem ?_⟩
    obtain ⟨early, rest, hover, -, -⟩ := desk_hears hnames hl hr
    rw [hover]
    exact List.mem_append_left _ (List.mem_append_right _ (List.mem_filterMap.mpr ⟨_, hi, rfl⟩))
  | phone =>
    have hdesk := mem_deskTrace.mpr ho
    rw [deskTrace_phone] at hdesk
    cases hdesk

end

def told : List Act :=
  shared ++ [.core (.load 0 true), .core (.write 0 .whole), .core (.rename 0 true), .callback 0, .callback 0, .callback 0,
    .callback 0, .core (.run 0 .drain), .core (.forward 0)].map .phone

theorem told_enabled :
    (exec (system home homeLine none Daemon.Sample.empty) anyway [] atHome told).isSome = true := by
  decide +kernel

theorem run_pastes_told :
    let r := (exec (system home homeLine none Daemon.Sample.empty) anyway [] atHome told).get told_enabled
    ∃ n loop d c, .desk (.handed loop d n c) ∈ r.1 ∧ fromUtf8 c.content = some "B" := by
  have hr := run_atHome told_enabled
  have hpaste : (step home homeLine ((exec (system home homeLine none Daemon.Sample.empty) anyway [] atHome told).get
      told_enabled).2 (.phone (.callback 0))).any (fun r => "B" ∈ Android.App.written 0 (phoneTrace r.2) ∧
        (r.1.app.core.runs 0).dialer.connections = 1) = true := by
    decide +kernel
  obtain ⟨⟨w', os⟩, hs, hfacts⟩ := (Option.any_eq_true _ _).mp hpaste
  obtain ⟨hwrote, hone⟩ := of_decide_eq_true hfacts
  have hr' : Run (system home homeLine none Daemon.Sample.empty) always _ w' := run_step hr trivial hs
  have hsound := Core.run_sound (Android.App.run_core (run_phone hr')).1 0
  have hq : ∀ n, (w'.app.core.session (0, n)).isSome = true → ∃ i, homeLine i = some (0, n) := by
    intro n hn
    cases n with
    | zero => exact ⟨0, rfl⟩
    | succ n =>
      have hnone : ((w'.app.core.runs 0).conns (n + 1)).session = none :=
        (hsound.unopened (n + 1) (Or.inl (Nat.le_trans (Nat.le_of_eq hone) (Nat.le_add_left 1 n)))).1
      unfold Core.session at hn
      rw [hnone] at hn
      cases hn
  obtain ⟨i, n, loop, d, c, -, hc, htext⟩ := run_pastes home_named hr hs hq (mem_written.mp hwrote)
  exact ⟨i, loop, d, c, hc, htext⟩

def taken : List Act :=
  shared ++ (.drain 0 :: Daemon.Sample.turns 3 : List Daemon.Act).map .desk

theorem taken_enabled :
    (exec (system home homeLine none Daemon.Sample.empty) anyway [] atHome taken).isSome = true := by
  decide +kernel

theorem run_applies_taken :
    let r := (exec (system home homeLine none Daemon.Sample.empty) anyway [] atHome taken).get taken_enabled
    ∃ i, .clipboardReceived Daemon.Sample.clipA ∈ deskTold i r.1 ∧
      ∀ p, homeLine i = some p → .queued p Daemon.Sample.clipA ∈ r.1 := by
  have hr := run_atHome taken_enabled
  have hwrite : (step home homeLine ((exec (system home homeLine none Daemon.Sample.empty) anyway [] atHome taken).get
      taken_enabled).2 (.desk (.orchestrate true Daemon.Sample.phone))).any (fun r =>
        .applied Daemon.Sample.phone Daemon.Sample.clipA ∈ deskTrace r.2) = true := by
    decide +kernel
  obtain ⟨⟨w', os⟩, hs, hfacts⟩ := (Option.any_eq_true _ _).mp hwrite
  exact run_applies home_named hr hs (mem_deskTrace.mp (of_decide_eq_true hfacts))

end World

end Sync

end PenguinSync
