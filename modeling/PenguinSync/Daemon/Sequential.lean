import PenguinSync.Daemon.Loops

/-!
# One clipboard operation at a time

A received clip or a change notification is dealt with to its end before
anything else of the daemon moves; the connections go on. Duplicates are told
by the hash of the clip checked last, which says what was sent or applied last
and not what the clipboard or a device holds.
-/

namespace PenguinSync

open Lts

namespace Daemon

def Watch.busy : Watch → Bool
  | .off | .idle => false
  | _ => true

def Orchestrator.receives : Orchestrator → Bool
  | .received .. => true
  | _ => false

/-- While one of the clipboard loops has a clip in hand, only that loop and the connections take steps. -/
def alone (s : Daemon) (a : Act) : Bool :=
  match a.task with
  | .net => true
  | .orchestrator => !Watch.busy s.watch
  | .bus => !Watch.busy s.watch && !Orchestrator.receives s.orchestrator
  | .clipboard =>
    match a with
    | .watch .. => !Orchestrator.receives s.orchestrator
    | _ => !Watch.busy s.watch && !Orchestrator.receives s.orchestrator

/-- `handle_received` goes on, and the writes it makes succeed. -/
def serving (s : Daemon) (a : Act) : Bool :=
  alone s a && Orchestrator.receives s.orchestrator &&
    match a with
    | .orchestrate ok _ => ok
    | _ => true

def broadcasting (s : Daemon) (a : Act) : Bool := alone s a && Watch.busy s.watch

def Obs.checked? : Obs → Option Clip
  | .checked _ c => some c
  | _ => none

def Obs.exchanged (d : DeviceId) : Obs → Option Clip
  | .handed _ id _ c | .accepted _ id c => if id = d then some c else none
  | _ => none

section
variable {cfg : Config} {s s' s₀ : Daemon} {tr tr' tr₀ os : List Obs} {a : Act} {r : Received} {c : Clip}

/-! ## The last hash -/

theorem watch_lastHash {ok : Bool} {target : DeviceId} {w : Watch} (hm : WatchMove cfg s ok target w s' os) :
    s'.lastHash = ((lastOf Obs.checked? os).map (·.hash)).or s.lastHash := by
  cases hm with
  | passes c _ => rfl
  | suppresses c hl => exact hl
  | _ => rfl

theorem received_lastHash {ok : Bool} {target : DeviceId} {pc : ReceivedPc}
    (hm : ReceivedMove s r ok target pc s' os) :
    s'.lastHash = ((lastOf Obs.checked? os).map (·.hash)).or s.lastHash := by
  cases hm with
  | suppresses hl => exact hl
  | _ => rfl

theorem checked_of_clip {o : Obs} (h : Obs.clip o = false) : Obs.checked? o = none := by
  cases o <;> first | rfl | cases h

theorem lastHash_step (h : step cfg s a = some (s', os)) :
    s'.lastHash = ((lastOf Obs.checked? os).map (·.hash)).or s.lastHash := by
  cases step_loops h with
  | other hs _ hos =>
    have hnone : lastOf Obs.checked? os = none := lastOf_none fun o ho => checked_of_clip (hos o ho)
    rw [hnone]
    exact hs.lastHash
  | taken hs _ _ => exact hs.lastHash
  | copied => rfl
  | notified => rfl
  | probed _ => rfl
  | ended _ _ => rfl
  | watches hm => exact watch_lastHash hm
  | receives _ hm => exact received_lastHash hm

variable {file : Option PersistedState} {clipboard : Content} {C : List Obs → Daemon → Act → Prop}

/-- `last_hash` is the hash of the clip that was checked last. -/
theorem run_lastHash (h : Run (system cfg file clipboard) C tr s) :
    s.lastHash = (lastOf Obs.checked? tr).map (·.hash) := by
  refine h.invariant (I := fun tr s => s.lastHash = (lastOf Obs.checked? tr).map (·.hash)) (fun s h0 => ?_)
    (fun tr s a s' os _ hi _ hs => ?_)
  · rw [h0]
    rfl
  · rw [lastHash_step hs, lastOf_append, hi]
    cases lastOf Obs.checked? os <;> rfl

/-! ## A received clip -/

def Clip.text (c : Clip) : Content := ⟨c.mime, c.content⟩

/-- What is known on the way from `s₀`, where `handle_received` was called, to its return. -/
def Serves (s₀ : Daemon) (r : Received) (s : Daemon) : Orchestrator → Prop
  | .received r' .isPaired => r' = r ∧ s.trust = s₀.trust ∧ s.backend = true ∧ s.lastHash = s₀.lastHash ∧
      s.clipboard = s₀.clipboard
  | .received r' .shouldBroadcast => r' = r ∧ s.backend = true ∧ s.lastHash = s₀.lastHash ∧ s.clipboard = s₀.clipboard
  | .received r' .write => r' = r ∧ s.backend = true ∧ s₀.lastHash ≠ some r.clip.hash
  | .received r' _ => r' = r ∧ s₀.lastHash ≠ some r.clip.hash ∧ s.clipboard = Clip.text r.clip
  | .idle => s₀.lastHash ≠ some r.clip.hash ∧ s.clipboard = Clip.text r.clip ∨
      s₀.lastHash = some r.clip.hash ∧ s.clipboard = s₀.clipboard
  | _ => False

theorem Serves.congr {o : Orchestrator} (hi : Serves s₀ r s o) (ht : s'.trust = s.trust) (hb : s'.backend = s.backend)
    (hl : s'.lastHash = s.lastHash) (hc : s'.clipboard = s.clipboard) : Serves s₀ r s' o := by
  unfold Serves at hi ⊢
  rw [ht, hb, hl, hc]
  exact hi

theorem Serves.move {ok : Bool} {target : DeviceId} {pc : ReceivedPc} (hi : Serves s₀ r s (.received r pc))
    (hp : r.sender ∈ s₀.trust.paired) (hm : r.clip.mime = mimeTextPlain) (hu : fromUtf8 r.clip.content ≠ none)
    (hok : ok = true) (hmove : ReceivedMove s r ok target pc s' os) : Serves s₀ r s' s'.orchestrator := by
  cases hmove with
  | accepts _ _ => exact ⟨rfl, hi.2.2⟩
  | drops hn =>
    rw [← hi.2.1] at hp
    exact absurd ⟨hp, hm⟩ hn
  | passes hn => exact ⟨rfl, hi.2.1, hi.2.2.1 ▸ hn⟩
  | suppresses hl => exact Or.inr ⟨hi.2.2.1 ▸ hl, hi.2.2.2⟩
  | writes _ _ _ => exact ⟨rfl, hi.2.2, rfl⟩
  | unwritten hn => exact absurd ⟨hi.2.1, hok, hu⟩ hn
  | snapshots => exact hi
  | relayed rest _ => exact Or.inl hi.2
  | relays rest i _ => exact hi

theorem Serves.step (hi : Serves s₀ r s s.orchestrator) (hp : r.sender ∈ s₀.trust.paired)
    (hm : r.clip.mime = mimeTextPlain) (hu : fromUtf8 r.clip.content ≠ none) (hc : serving s a = true)
    (h : step cfg s a = some (s', os)) : Serves s₀ r s' s'.orchestrator := by
  simp only [serving, Bool.and_eq_true] at hc
  obtain ⟨⟨hal, hr⟩, hok⟩ := hc
  cases ha : a.task with
  | net =>
    obtain ⟨⟨_, _, _, rfl⟩, -⟩ := net_frame h ha
    exact hi.congr rfl rfl rfl rfl
  | bus => simp [alone, ha, hr] at hal
  | clipboard => cases a <;> simp [alone, ha, hr] at hal
  | orchestrator =>
    cases a with
    | orchestrate ok target =>
      cases orchestrate_turn h with
      | received r' pc hor hs =>
        rw [hor] at hi
        obtain rfl : r' = r := by cases pc <;> exact hi.1
        exact hi.move hp hm hu hok (receivedStep_move hs)
      | taken i e rest hor _ _ =>
        rw [hor] at hr
        cases hr
      | handshake hh pc hor _ =>
        rw [hor] at hr
        cases hr
      | closed id pc hor _ =>
        rw [hor] at hr
        cases hr
    | _ => cases ha

/-- A call of `handle_received` for a paired device whose write would succeed
leaves the clip on the clipboard if and only if the clip checked last has
another hash or the clip was there already. -/
theorem run_received_applied (h : Run (system cfg file clipboard) (fun _ s a => alone s a = true) tr s)
    (ho : s.orchestrator = .received r .isPaired) (hp : r.sender ∈ s.trust.paired)
    (hv : r.clip.Valid cfg.crypto.blake3) (hb : s.backend = true) (hu : fromUtf8 r.clip.content ≠ none)
    (hpath : Path (system cfg file clipboard) (fun _ s a => serving s a = true) tr s tr' s')
    (hret : s'.orchestrator = .idle) :
    s'.clipboard = Clip.text r.clip ↔
      (lastOf Obs.checked? tr).map (·.hash) ≠ some r.clip.hash ∨ s.clipboard = Clip.text r.clip := by
  have h0 : Serves s r s s.orchestrator := by
    rw [ho]
    exact ⟨rfl, rfl, hb, rfl, rfl⟩
  have hi : Serves s r s' s'.orchestrator :=
    hpath.invariant (I := fun _ x => Serves s r x x.orchestrator) h0 fun _ _ _ _ _ hi hc hs => hi.step hp hv.mime hu hc hs
  rw [hret] at hi
  rw [← run_lastHash h]
  rcases hi with ⟨hn, hc⟩ | ⟨hl, hc⟩
  · exact iff_of_true hc (Or.inl hn)
  · rw [hc]
    constructor
    · exact Or.inr
    · rintro (hn | hc)
      · exact absurd hl hn
      · exact hc

/-! ## A local change -/

def lastExchanged (d : DeviceId) (tr : List Obs) : Option Clip := lastOf (Obs.exchanged d) tr

/-- What is known on the way from `s₀`, where the read returned `c`, to the next notification. -/
def Broadcasts (s₀ : Daemon) (tr₀ : List Obs) (c : Clip) (tr : List Obs) (s : Daemon) : Watch → Prop
  | .checking c' => c' = c ∧ s.lastHash = s₀.lastHash ∧ ∀ d, lastExchanged d tr = lastExchanged d tr₀
  | .handles c' => c' = c ∧ s₀.lastHash ≠ some c.hash
  | .sending c' rest => c' = c ∧ s₀.lastHash ≠ some c.hash ∧
      ∀ d ∈ s.connectedDevices, d ∈ rest ∨ lastExchanged d tr = some c
  | .idle => s₀.lastHash ≠ some c.hash ∧ (∀ d ∈ s.connectedDevices, lastExchanged d tr = some c) ∨
      s₀.lastHash = some c.hash ∧ ∀ d, lastExchanged d tr = lastExchanged d tr₀
  | _ => False

theorem exchanged_handed {d target : DeviceId} {loop : ClipLoop} {i : Nat} :
    lastExchanged d (tr ++ [.handed loop target i c]) = if target = d then some c else lastExchanged d tr := by
  unfold lastExchanged
  by_cases hd : target = d
  · rw [if_pos hd]
    exact lastOf_snoc (if_pos hd)
  · rw [if_neg hd]
    refine lastOf_append_none fun o ho => ?_
    rw [List.mem_singleton.mp ho]
    exact if_neg hd

theorem exchanged_none {d : DeviceId} (hos : ∀ o ∈ os, (∃ i x, o = .out i x) ∨ ∃ loop c, o = .checked loop c) :
    lastExchanged d (tr ++ os) = lastExchanged d tr := by
  refine lastOf_append_none fun o ho => ?_
  rcases hos o ho with ⟨i, x, rfl⟩ | ⟨loop, c, rfl⟩ <;> rfl

theorem Broadcasts.congr {w : Watch} (hi : Broadcasts s₀ tr₀ c tr s w) (hl : s'.lastHash = s.lastHash)
    (hc : s'.connectedDevices = s.connectedDevices) (ht : ∀ d, lastExchanged d tr' = lastExchanged d tr) :
    Broadcasts s₀ tr₀ c tr' s' w := by
  unfold Broadcasts at hi ⊢
  simp only [hl, hc, ht]
  exact hi

theorem Broadcasts.move {ok : Bool} {target : DeviceId} {w : Watch} (hi : Broadcasts s₀ tr₀ c tr s w)
    (hb : Watch.busy w = true) (hm : WatchMove cfg s ok target w s' os) :
    Broadcasts s₀ tr₀ c (tr ++ os) s' s'.watch := by
  have hx : ∀ d c', lastExchanged d (tr ++ [.checked .watch c']) = lastExchanged d tr :=
    fun d c' => exchanged_none fun o ho => Or.inr ⟨.watch, c', List.mem_singleton.mp ho⟩
  cases hm with
  | skips _ _ _ _ => cases hb
  | notices _ _ => cases hb
  | unread _ _ => exact hi.elim
  | rejects _ _ _ => exact hi.elim
  | reads _ _ _ _ _ => exact hi.elim
  | passes c' hn =>
    obtain ⟨rfl, hl, -⟩ := hi
    exact ⟨rfl, hl ▸ hn⟩
  | suppresses c' he =>
    obtain ⟨rfl, hl, ht⟩ := hi
    exact Or.inr ⟨hl ▸ he, fun d => (hx d _).trans (ht d)⟩
  | snapshots c' => exact ⟨hi.1, hi.2, fun d hd => Or.inl hd⟩
  | sent c' rest he =>
    rw [List.append_nil]
    refine Or.inl ⟨hi.2.1, fun d hd => ?_⟩
    rcases hi.2.2 d hd with hr | ht
    · rw [← Finmap.mem_keys, he] at hr
      simp at hr
    · exact ht
  | sends c' rest i hl =>
    obtain ⟨rfl, hn, hr⟩ := hi
    refine ⟨rfl, hn, fun d hd => ?_⟩
    rw [exchanged_handed]
    by_cases ht : target = d
    · exact Or.inr (if_pos ht)
    · rw [if_neg ht]
      rcases hr d hd with hr | hr
      · exact Or.inl (Finmap.mem_erase.mpr ⟨Ne.symm ht, hr⟩)
      · exact Or.inr hr

theorem watchStep_connected {ok : Bool} {target : DeviceId} (h : s.watchStep cfg ok target = some (s', os)) :
    s'.connectedDevices = s.connectedDevices := by
  obtain ⟨⟨_, _, _, _, rfl⟩, -, -⟩ := watchStep_frame h
  rfl

theorem Broadcasts.step (hi : Broadcasts s₀ tr₀ c tr s s.watch) (hc : broadcasting s a = true)
    (h : step cfg s a = some (s', os)) :
    Broadcasts s₀ tr₀ c (tr ++ os) s' s'.watch ∧ s'.connectedDevices = s.connectedDevices := by
  simp only [broadcasting, Bool.and_eq_true] at hc
  obtain ⟨hal, hb⟩ := hc
  cases ha : a.task with
  | net =>
    obtain ⟨⟨_, _, _, rfl⟩, ho⟩ := net_frame h ha
    exact ⟨hi.congr rfl rfl fun d => exchanged_none fun o hm => Or.inl (ho o hm), rfl⟩
  | bus => simp [alone, ha, hb] at hal
  | orchestrator => simp [alone, ha, hb] at hal
  | clipboard =>
    cases a with
    | watch ok target => exact ⟨hi.move hb (watchStep_move rfl h), watchStep_connected h⟩
    | _ => first | (simp [alone, Act.task, hb] at hal; done) | cases ha

/-- After a change that could be read and checked, every connected device has
exchanged that clip last if and only if the clip checked last has another hash
or they all had exchanged it last before. -/
theorem run_change_broadcast (h : Run (system cfg file clipboard) (fun _ s a => alone s a = true) tr s)
    (hw : s.watch = .checking c)
    (hpath : Path (system cfg file clipboard) (fun _ s a => broadcasting s a = true) tr s tr' s')
    (hret : s'.watch = .idle) :
    (∀ d ∈ s'.connectedDevices, lastExchanged d tr' = some c) ↔
      (lastOf Obs.checked? tr).map (·.hash) ≠ some c.hash ∨ ∀ d ∈ s.connectedDevices, lastExchanged d tr = some c := by
  have h0 : Broadcasts s tr c tr s s.watch ∧ s.connectedDevices = s.connectedDevices := by
    rw [hw]
    exact ⟨⟨rfl, rfl, fun _ => rfl⟩, rfl⟩
  obtain ⟨hi, hcd⟩ := hpath.invariant
    (I := fun t x => Broadcasts s tr c t x x.watch ∧ x.connectedDevices = s.connectedDevices) h0
    fun _ _ _ _ _ hi hc hs => ⟨(hi.1.step hc hs).1, (hi.1.step hc hs).2.trans hi.2⟩
  rw [hret] at hi
  rw [← run_lastHash h, ← hcd]
  rcases hi with ⟨hn, hall⟩ | ⟨hl, hsame⟩
  · exact iff_of_true hall (Or.inl hn)
  · simp only [hsame]
    constructor
    · exact Or.inr
    · rintro (hn | hall)
      · exact absurd hl hn
      · exact hall

end

def Sample.offered : List Act :=
  Sample.pair 0 (Sample.addr 2) Sample.phoneKey ++ [.probe] ++ Sample.share 0 Sample.clipA ++ Sample.turns 1

/-- The phone's clip is applied and an image is copied over it, then the phone sends the clip again. -/
def Sample.covered : List Act :=
  Sample.offered ++ Sample.turns 5 ++ List.replicate 3 (.watch true Sample.phone) ++ [.copy ⟨"image/png", [1]⟩] ++
    List.replicate 2 (.watch true Sample.phone) ++ Sample.share 0 Sample.clipA ++ Sample.turns 1

open Sample in
/-- It is taken for a duplicate, and the image stays. -/
theorem covered_kept : ∃ tr s tr' s', Run (system cfg none empty) (fun _ s a => alone s a = true) tr s ∧
    s.orchestrator = .received ⟨0, phone, clipA⟩ .isPaired ∧ phone ∈ s.trust.paired ∧ s.backend = true ∧
    clipA.Valid crypto.blake3 ∧ fromUtf8 clipA.content ≠ none ∧
    Path (system cfg none empty) (fun _ s a => serving s a = true) tr s tr' s' ∧ s'.orchestrator = .idle ∧
    s'.clipboard ≠ Clip.text clipA := by
  have hrun : (exec (system cfg none empty) (fun _ s a => alone s a) [] (initial none empty) covered).any (fun r =>
      decide (r.2.orchestrator = .received ⟨0, phone, clipA⟩ .isPaired ∧ phone ∈ r.2.trust.paired ∧
        r.2.backend = true) &&
      (exec (system cfg none empty) (fun _ s a => serving s a) r.1 r.2 (turns 2)).any fun r' =>
        decide (r'.2.orchestrator = .idle ∧ r'.2.clipboard ≠ Clip.text clipA)) = true := by
    decide +kernel
  obtain ⟨⟨tr, s⟩, he, hfacts⟩ := (Option.any_eq_true _ _).mp hrun
  obtain ⟨hpre, hrest⟩ := Bool.and_eq_true_iff.mp hfacts
  obtain ⟨⟨tr', s'⟩, he', hpost⟩ := (Option.any_eq_true _ _).mp hrest
  obtain ⟨ho, hp, hb⟩ := of_decide_eq_true hpre
  obtain ⟨ho', hc⟩ := of_decide_eq_true hpost
  exact ⟨tr, s, tr', s', .exec (fun _ _ _ h => h) (.init rfl) he, ho, hp, hb, ⟨by decide, by decide, by decide +kernel⟩,
    by decide +kernel, .exec (fun _ _ _ h => h) .refl he', ho', hc⟩

open Sample in
theorem offered_enabled :
    (exec (system cfg none empty) (fun _ s a => alone s a) [] (initial none empty) offered).isSome = true := by
  decide +kernel

open Sample in
theorem offered_served :
    let r := (exec (system cfg none empty) (fun _ s a => alone s a) [] (initial none empty) offered).get offered_enabled
    (exec (system cfg none empty) (fun _ s a => serving s a) r.1 r.2 (turns 5)).isSome = true := by
  decide +kernel

open Sample in
theorem run_received_applied_offered :
    ((exec (system cfg none empty) (fun _ s a => serving s a) _ _ (turns 5)).get offered_served).2.clipboard =
      Clip.text clipA := by
  have hfacts :
      let r := (exec (system cfg none empty) (fun _ s a => alone s a) [] (initial none empty) offered).get offered_enabled
      let r' := (exec (system cfg none empty) (fun _ s a => serving s a) r.1 r.2 (turns 5)).get offered_served
      r.2.orchestrator = .received ⟨0, phone, clipA⟩ .isPaired ∧ phone ∈ r.2.trust.paired ∧ r.2.backend = true ∧
        (lastOf Obs.checked? r.1).map (·.hash) ≠ some clipA.hash ∧ r'.2.orchestrator = .idle := by decide +kernel
  obtain ⟨ho, hp, hb, hl, ho'⟩ := hfacts
  exact (run_received_applied (r := ⟨0, phone, clipA⟩) (run_of_exec (fun _ _ _ h => h) rfl offered_enabled) ho hp
    ⟨by decide, by decide, by decide +kernel⟩ hb (by decide +kernel)
    (Path.exec (fun _ _ _ h => h) .refl (Option.eq_some_of_isSome offered_served)) ho').mpr (Or.inl hl)

/-- A text is copied and sent to the phone; then a tablet is paired, an image copied and the text copied again. -/
def Sample.recopied : List Act :=
  Sample.pair 0 (Sample.addr 2) Sample.phoneKey ++ [.probe, .copy ⟨mimeTextPlain, [65]⟩] ++
    List.replicate 6 (.watch true Sample.phone) ++ Sample.pair 1 (Sample.addr 3) Sample.tabletKey ++
    [.copy ⟨"image/png", [1]⟩] ++ List.replicate 2 (.watch true Sample.phone) ++
    [.copy ⟨mimeTextPlain, [65]⟩] ++ List.replicate 2 (.watch true Sample.phone)

open Sample in
/-- The change is taken for a duplicate, and the tablet never gets the text. -/
theorem recopied_unsent : ∃ tr s tr' s', Run (system cfg none empty) (fun _ s a => alone s a = true) tr s ∧
    s.watch = .checking clipA ∧
    Path (system cfg none empty) (fun _ s a => broadcasting s a = true) tr s tr' s' ∧ s'.watch = .idle ∧
    tablet ∈ s'.connectedDevices ∧ lastExchanged tablet tr' = none := by
  have hrun : (exec (system cfg none empty) (fun _ s a => alone s a) [] (initial none empty) recopied).any (fun r =>
      decide (r.2.watch = .checking clipA) &&
      (exec (system cfg none empty) (fun _ s a => broadcasting s a) r.1 r.2 [.watch true phone]).any fun r' =>
        decide (r'.2.watch = .idle ∧ tablet ∈ r'.2.connectedDevices ∧ lastExchanged tablet r'.1 = none)) = true := by
    decide +kernel
  obtain ⟨⟨tr, s⟩, he, hfacts⟩ := (Option.any_eq_true _ _).mp hrun
  obtain ⟨hpre, hrest⟩ := Bool.and_eq_true_iff.mp hfacts
  obtain ⟨⟨tr', s'⟩, he', hpost⟩ := (Option.any_eq_true _ _).mp hrest
  obtain ⟨hw', hd, hl⟩ := of_decide_eq_true hpost
  exact ⟨tr, s, tr', s', .exec (fun _ _ _ h => h) (.init rfl) he, of_decide_eq_true hpre,
    .exec (fun _ _ _ h => h) .refl he', hw', hd, hl⟩

/-- A text is copied while the phone is connected, and read. -/
def Sample.copied : List Act :=
  Sample.pair 0 (Sample.addr 2) Sample.phoneKey ++ [.probe, .copy ⟨mimeTextPlain, [65]⟩] ++
    List.replicate 2 (.watch true Sample.phone)

open Sample in
theorem copied_enabled :
    (exec (system cfg none empty) (fun _ s a => alone s a) [] (initial none empty) Sample.copied).isSome = true := by
  decide +kernel

open Sample in
theorem copied_broadcast :
    let r := (exec (system cfg none empty) (fun _ s a => alone s a) [] (initial none empty) Sample.copied).get copied_enabled
    (exec (system cfg none empty) (fun _ s a => broadcasting s a) r.1 r.2
      (List.replicate 4 (.watch true phone))).isSome = true := by
  decide +kernel

open Sample in
theorem run_change_broadcast_copied :
    lastExchanged phone ((exec (system cfg none empty) (fun _ s a => broadcasting s a) _ _
      (List.replicate 4 (.watch true phone))).get copied_broadcast).1 = some clipA := by
  have hfacts :
      let r := (exec (system cfg none empty) (fun _ s a => alone s a) [] (initial none empty) Sample.copied).get
        copied_enabled
      let r' := (exec (system cfg none empty) (fun _ s a => broadcasting s a) r.1 r.2
        (List.replicate 4 (.watch true phone))).get copied_broadcast
      r.2.watch = .checking clipA ∧ (lastOf Obs.checked? r.1).map (·.hash) ≠ some clipA.hash ∧ r'.2.watch = .idle ∧
        phone ∈ r'.2.connectedDevices := by decide +kernel
  obtain ⟨hw, hl, hw', hd⟩ := hfacts
  exact (run_change_broadcast (c := clipA) (run_of_exec (fun _ _ _ h => h) rfl copied_enabled) hw
    (Path.exec (fun _ _ _ h => h) .refl (Option.eq_some_of_isSome copied_broadcast)) hw').mpr (Or.inl hl) phone hd

end Daemon

end PenguinSync
