import PenguinSync.Daemon.Loops
import PenguinSync.Daemon.Sequential

/-!
# Convergence

The connected devices stay the same and the backend never fails. The clipboard
and the last hash then agree once nothing is pending, and every device that
only listens has been sent the clip checked last. Whether that is also the last
clip it was sent depends on the order of the sends: the two loops check under
one lock but send outside of it. A device that connected after a clip was
checked is sent it only once another clip was checked in between.
-/

namespace PenguinSync

open Lts

def Content.Acceptable (content : Content) : Prop :=
  content.mime = mimeTextPlain ∧ content.bytes.length ≤ maxContentLen

instance (content : Content) : Decidable content.Acceptable := inferInstanceAs (Decidable (_ ∧ _))

namespace Daemon

/-! ## What a device is sent and what it is owed -/

def Obs.sent (d : DeviceId) : Obs → Option Clip
  | .handed _ id _ c => if id = d then some c else none
  | _ => none

def lastSent (d : DeviceId) (tr : List Obs) : Option Clip := lastOf (Obs.sent d) tr

def Obs.sender? : Obs → Option DeviceId
  | .accepted _ id _ => some id
  | _ => none

/-- Nothing was taken in from `d`. -/
def Silent (d : DeviceId) (tr : List Obs) : Prop := ∀ o ∈ tr, Obs.sender? o ≠ some d

instance (d : DeviceId) (tr : List Obs) : Decidable (Silent d tr) := inferInstanceAs (Decidable (∀ o ∈ tr, _))

def Watch.Owes (h : Bytes 32) (d : DeviceId) : Watch → Prop
  | .handles c => c.hash = h
  | .sending c rest => c.hash = h ∧ d ∈ rest
  | _ => False

instance (h : Bytes 32) (d : DeviceId) : ∀ w : Watch, Decidable (Watch.Owes h d w)
  | .handles _ => inferInstanceAs (Decidable (_ = _))
  | .sending .. => inferInstanceAs (Decidable (_ ∧ _))
  | .off | .idle | .reading _ | .checking _ => isFalse id

def Orchestrator.Owes (h : Bytes 32) (d : DeviceId) : Option (Received × ReceivedPc) → Prop
  | some (r, .write) | some (r, .handles) => r.clip.hash = h ∧ r.sender ≠ d
  | some (r, .relay rest) => r.clip.hash = h ∧ d ∈ rest
  | _ => False

instance (h : Bytes 32) (d : DeviceId) : ∀ o, Decidable (Orchestrator.Owes h d o)
  | some (_, .write) | some (_, .handles) | some (_, .relay _) => inferInstanceAs (Decidable (_ ∧ _))
  | some (_, .isPaired) | some (_, .shouldBroadcast) | none => isFalse id

/-! ## The steps -/

/-- The devices in `D` and no others are connected, the backend calls succeed,
what is copied is acceptable text and every change is notified once. -/
def smooth (D : HashMap DeviceId Nat) (s : Daemon) (a : Act) : Bool :=
  decide (s.connectedDevices = D) &&
    match a with
    | .copy c => decide c.Acceptable
    | .notify | .watchEnds => false
    | .watch ok _ => !Watch.reads s.watch || ok
    | .orchestrate ok _ => decide (∀ r ∈ Orchestrator.writes? s.orchestrator, ok = true ∧ fromUtf8 r.clip.content ≠ none)
    | _ => true

/-- A clip is sent to a silent device only while it is the one checked last or
that one is still to follow; a clip that moves the last hash is what its hash says. -/
def ordered (cfg : Config) (tr : List Obs) (s : Daemon) : Act → Bool
  | .watch _ target =>
    match s.watch with
    | .sending c rest => decide (target ∈ rest → Silent target tr →
        s.lastHash = some c.hash ∨ ∃ h ∈ s.lastHash, Orchestrator.Owes h target (Orchestrator.received? s.orchestrator))
    | _ => true
  | .orchestrate _ target =>
    match s.orchestrator with
    | .received r .shouldBroadcast => decide (s.lastHash ≠ some r.clip.hash → r.clip.Valid cfg.crypto.blake3)
    | .received r (.relay rest) => decide (target ∈ rest → Silent target tr →
        s.lastHash = some r.clip.hash ∨ ∃ h ∈ s.lastHash, Watch.Owes h target s.watch)
    | _ => true
  | _ => true

/-! ## The clipboard and the last hash -/

/-- What the watch has in its hands is acceptable, and current unless a notification waits. -/
def Fresh (cfg : Config) (s : Daemon) : Watch → Prop
  | .off => False
  | .idle => True
  | .reading mime => mime = mimeTextPlain ∧ s.clipboard.Acceptable
  | .checking c => c.Valid cfg.crypto.blake3 ∧ (s.changes ≠ [] ∨ Clip.text c = s.clipboard)
  | .handles c | .sending c _ => c.Valid cfg.crypto.blake3

/-- What `handle_received` has in its hands was taken in and, once checked, is what its hash says. -/
def Carries (cfg : Config) (tr : List Obs) : Option (Received × ReceivedPc) → Prop
  | none | some (_, .isPaired) => True
  | some (r, .shouldBroadcast) => ¬ Silent r.sender tr
  | some (r, _) => ¬ Silent r.sender tr ∧ r.clip.Valid cfg.crypto.blake3

def Watch.looks : Watch → Bool
  | .reading _ | .checking _ => true
  | _ => false

/-- The content has the last hash `h`. -/
def Shows (cfg : Config) (content : Content) (h : Bytes 32) : Prop :=
  content.mime = mimeTextPlain ∧ cfg.crypto.blake3 content.bytes = h

def Settling (s : Daemon) : Prop :=
  s.changes ≠ [] ∨ Watch.looks s.watch = true ∨ ∃ r, Orchestrator.received? s.orchestrator = some (r, .write)

/-- Whatever is in flight is acceptable text, and what the two loops have in hand is what it seems. -/
structure Tracked (cfg : Config) (tr : List Obs) (s : Daemon) : Prop where
  backend : s.backend = true
  text : ∀ mime ∈ s.changes, mime = mimeTextPlain
  acceptable : s.changes ≠ [] → s.clipboard.Acceptable
  watch : Fresh cfg s s.watch
  received : Carries cfg tr (Orchestrator.received? s.orchestrator)

/-- The clipboard has the last hash unless something is pending. -/
def Current (cfg : Config) (s : Daemon) : Prop := ∀ h, s.lastHash = some h → s.Settling ∨ Shows cfg s.clipboard h

def Anew (s : Daemon) (os : List Obs) : Prop := ∃ loop c, .checked loop c ∈ os ∧ s.lastHash ≠ some c.hash

section
variable {cfg : Config} {s s' s₀ : Daemon} {tr os : List Obs} {a : Act}
  {D : HashMap DeviceId Nat} {d : DeviceId} {h : Bytes 32} {tr₀ : List Obs}

theorem Silent.mono (hs : Silent d (tr ++ os)) : Silent d tr := by
  intro o ho
  exact hs o (List.mem_append_left _ ho)

theorem Carries.mono {o : Option (Received × ReceivedPc)} (hc : Carries cfg tr o) : Carries cfg (tr ++ os) o := by
  unfold Carries at hc ⊢
  split
  · trivial
  · trivial
  · intro hs
    exact hc hs.mono
  · have := hc
    simp only at this
    exact ⟨fun hs => this.1 hs.mono, this.2⟩

theorem Fresh.congr {w : Watch} (hf : Fresh cfg s w) (hc : s'.clipboard = s.clipboard) (hch : s'.changes = s.changes) :
    Fresh cfg s' w := by
  unfold Fresh at hf ⊢
  rw [hc, hch]
  exact hf

theorem Fresh.changed {w : Watch} (hf : Fresh cfg s w) (hc : s'.clipboard.Acceptable) (hch : s'.changes ≠ []) :
    Fresh cfg s' w := by
  cases w with
  | off => exact hf
  | idle => trivial
  | reading mime => exact ⟨hf.1, hc⟩
  | checking c => exact ⟨hf.1, Or.inl hch⟩
  | handles c => exact hf
  | sending c rest => exact hf

/-- At the watch's check a notification waits or the clip is what the clipboard holds. -/
theorem Fresh.checked {c : Clip} (hf : Fresh cfg s (.checking c)) : s.changes ≠ [] ∨ Shows cfg s.clipboard c.hash := by
  obtain ⟨hv, hch | htext⟩ := hf
  · exact Or.inl hch
  · rw [← htext]
    exact Or.inr ⟨hv.mime, hv.hash.symm⟩

theorem Settling.congr (hs : s.Settling) (hch : s'.changes = s.changes)
    (hw : Watch.looks s'.watch = Watch.looks s.watch)
    (ho : Orchestrator.received? s'.orchestrator = Orchestrator.received? s.orchestrator) : s'.Settling := by
  unfold Settling at hs ⊢
  rw [hch, hw, ho]
  exact hs

theorem Settling.away (hs : s.Settling) (hch : s'.changes = s.changes) (hw : s'.watch = s.watch)
    (ho : ∀ r, Orchestrator.received? s.orchestrator ≠ some (r, .write)) : s'.Settling := by
  unfold Settling at hs ⊢
  rw [hch, hw]
  rcases hs with hs | hs | ⟨r, hr⟩
  · exact Or.inl hs
  · exact Or.inr (Or.inl hs)
  · exact absurd hr (ho r)

theorem not_anew (hos : ∀ o ∈ os, Obs.clip o = false) : ¬ Anew s os := by
  rintro ⟨loop, c, hm, -⟩
  have := hos _ hm
  cases this

theorem Tracked.watches {ok : Bool} {target : DeviceId} (hi : Tracked cfg tr s)
    (hok : Watch.reads s.watch = true → ok = true) (hm : WatchMove cfg s ok target s.watch s' os) :
    Tracked cfg (tr ++ os) s' := by
  obtain ⟨hb, ht, hacc, hf, hr⟩ := hi
  have hr : Carries cfg (tr ++ os) (Orchestrator.received? s.orchestrator) := hr.mono
  generalize hw : s.watch = w at hm hf
  cases hm with
  | skips mime rest hch hne =>
    have := ht mime (by rw [hch]; simp)
    exact absurd this hne
  | notices rest hch =>
    have hne : s.changes ≠ [] := by rw [hch]; simp
    refine ⟨hb, fun m hm => ht m ?_, fun _ => hacc hne, ⟨rfl, hacc hne⟩, hr⟩
    rw [hch]
    exact List.mem_cons_of_mem _ hm
  | unread mime hn =>
    have hok := hok (by rw [hw]; rfl)
    exact absurd ⟨hok, hf.2.1⟩ hn
  | rejects mime e he =>
    obtain ⟨rfl, -, hsize⟩ := hf
    unfold Clip.new at he
    rw [if_neg (not_not.mpr rfl), if_neg (Nat.not_lt.mpr hsize)] at he
    cases he
  | reads mime c _ hmime hnew =>
    obtain ⟨hv, hbytes⟩ := Clip.valid_of_new hnew
    have htext : Clip.text c = s.clipboard := by
      unfold Clip.text
      rw [hv.mime, ← hmime, hbytes]
    exact ⟨hb, ht, hacc, ⟨hv, Or.inr htext⟩, hr⟩
  | passes c _ => exact ⟨hb, ht, hacc, hf.1, hr⟩
  | suppresses c _ => exact ⟨hb, ht, hacc, trivial, hr⟩
  | snapshots c => exact ⟨hb, ht, hacc, hf, hr⟩
  | sent c rest _ => exact ⟨hb, ht, hacc, trivial, hr⟩
  | sends c rest i _ => exact ⟨hb, ht, hacc, hf, hr⟩

theorem Current.watches {ok : Bool} {target : DeviceId} (hi : Current cfg s ∨ Anew s os) (ht : Tracked cfg tr s)
    (hok : Watch.reads s.watch = true → ok = true) (hm : WatchMove cfg s ok target s.watch s' os) :
    Current cfg s' := by
  have hf := ht.watch
  generalize hw : s.watch = w at hm hf
  intro h hl
  cases hm with
  | skips mime rest hch hne =>
    have := ht.text mime (by rw [hch]; simp)
    exact absurd this hne
  | notices _ _ => exact Or.inl (Or.inr (Or.inl rfl))
  | unread mime hn =>
    have hok := hok (by rw [hw]; rfl)
    exact absurd ⟨hok, hf.2.1⟩ hn
  | rejects mime e he =>
    obtain ⟨rfl, -, hsize⟩ := hf
    unfold Clip.new at he
    rw [if_neg (not_not.mpr rfl), if_neg (Nat.not_lt.mpr hsize)] at he
    cases he
  | reads _ _ _ _ _ => exact Or.inl (Or.inr (Or.inl rfl))
  | passes c _ =>
    obtain rfl := Option.some.inj hl
    exact hf.checked.imp_left Or.inl
  | suppresses c he =>
    obtain rfl := Option.some.inj (he.symm.trans hl)
    exact hf.checked.imp_left Or.inl
  | snapshots c =>
    refine (hi.resolve_right (not_anew (by simp)) h hl).imp_left fun hs => hs.congr rfl ?_ rfl
    rw [hw]
    rfl
  | sent c rest _ =>
    refine (hi.resolve_right (not_anew (by simp)) h hl).imp_left fun hs => hs.congr rfl ?_ rfl
    rw [hw]
    rfl
  | sends c rest i _ =>
    refine (hi.resolve_right (by simp [Anew]) h hl).imp_left fun hs => hs.congr rfl ?_ rfl
    rw [hw]
    rfl

theorem setContent_changes {content : Content} (hw : s.watch ≠ .off) : (s.setContent content).changes ≠ [] := by
  unfold setContent
  cases h : s.watch with
  | off => exact absurd h hw
  | _ => simp

theorem Tracked.on (hi : Tracked cfg tr s) : s.watch ≠ .off := by
  intro hw
  have hf := hi.watch
  rw [hw] at hf
  exact hf

/-- A change of the clipboard is notified, so nothing has to be current. -/
theorem Tracked.changed {content : Content} (o : Orchestrator) (hi : Tracked cfg tr s) (hcont : content.Acceptable)
    (hr : Carries cfg (tr ++ os) (Orchestrator.received? o)) :
    Tracked cfg (tr ++ os) { s.setContent content with orchestrator := o } ∧
      Current cfg { s.setContent content with orchestrator := o } := by
  have hne : (s.setContent content).changes ≠ [] := setContent_changes hi.on
  obtain ⟨hb, ht, -, hf, -⟩ := hi
  refine ⟨⟨hb, fun m hm => ?_, fun _ => hcont, hf.changed hcont hne, hr⟩, fun h hl => Or.inl (Or.inl hne)⟩
  simp only [setContent] at hm
  split at hm
  · exact ht m hm
  · rcases List.mem_append.mp hm with hm | hm
    · exact ht m hm
    · exact List.mem_singleton.mp hm

theorem Tracked.same (hi : Tracked cfg tr s) (hs : SameLoops s s')
    (hr : Carries cfg (tr ++ os) (Orchestrator.received? s'.orchestrator)) : Tracked cfg (tr ++ os) s' := by
  obtain ⟨hb, ht, hacc, hf, -⟩ := hi
  obtain ⟨hc, hch, hw, hl, hb'⟩ := hs
  refine ⟨hb'.trans hb, hch ▸ ht, ?_, ?_, hr⟩
  · rw [hch, hc]
    exact hacc
  · rw [hw]
    exact hf.congr hc hch

theorem Current.same (hi : Current cfg s) (hs : SameLoops s s') (hset : s.Settling → s'.Settling) : Current cfg s' := by
  intro h hl
  rw [hs.lastHash] at hl
  rw [hs.clipboard]
  exact (hi h hl).imp_left hset

theorem Current.away (hi : Current cfg s) (hs : SameLoops s s')
    (ho : ∀ r, Orchestrator.received? s.orchestrator ≠ some (r, .write)) : Current cfg s' :=
  hi.same hs fun hset => hset.away hs.changes hs.watch ho

theorem Tracked.receives {ok : Bool} {target : DeviceId} {r : Received} {pc : ReceivedPc} (hi : Tracked cfg tr s)
    (ho : s.orchestrator = .received r pc) (hsm : smooth D s (.orchestrate ok target) = true)
    (hord : ordered cfg tr s (.orchestrate ok target) = true) (hm : ReceivedMove s r ok target pc s' os) :
    Tracked cfg (tr ++ os) s' := by
  have hr : Carries cfg (tr ++ os) (Orchestrator.received? s.orchestrator) := hi.received.mono
  rw [ho] at hr
  cases hm with
  | accepts _ _ =>
    refine hi.same ⟨rfl, rfl, rfl, rfl, rfl⟩ ?_
    intro hs
    exact hs (.accepted r.session r.sender r.clip) (by simp) rfl
  | drops _ => exact hi.same ⟨rfl, rfl, rfl, rfl, rfl⟩ trivial
  | passes hn =>
    have hv : r.clip.Valid cfg.crypto.blake3 := by
      simp only [ordered, ho, decide_eq_true_eq] at hord
      exact hord hn
    obtain ⟨hb, ht, hacc, hf, -⟩ := hi
    exact ⟨hb, ht, hacc, hf.congr rfl rfl, hr, hv⟩
  | suppresses _ => exact hi.same ⟨rfl, rfl, rfl, rfl, rfl⟩ trivial
  | writes _ _ _ => exact (hi.changed (.received r .handles) ⟨hr.2.mime, hr.2.size⟩ hr).1
  | unwritten hnw =>
    simp only [smooth, ho, Bool.and_eq_true, decide_eq_true_eq] at hsm
    have hw := hsm.2 r rfl
    exact absurd ⟨hi.backend, hw.1, hw.2⟩ hnw
  | snapshots => exact hi.same ⟨rfl, rfl, rfl, rfl, rfl⟩ hr
  | relayed rest _ => exact hi.same ⟨rfl, rfl, rfl, rfl, rfl⟩ trivial
  | relays rest i _ => exact hi.same ⟨rfl, rfl, rfl, rfl, rfl⟩ hr

theorem Current.receives {ok : Bool} {target : DeviceId} {r : Received} {pc : ReceivedPc}
    (hi : Current cfg s ∨ Anew s os) (ht : Tracked cfg tr s) (ho : s.orchestrator = .received r pc)
    (hsm : smooth D s (.orchestrate ok target) = true) (hm : ReceivedMove s r ok target pc s' os) :
    Current cfg s' := by
  cases hm with
  | accepts _ _ =>
    exact (hi.resolve_right (by simp [Anew])).away ⟨rfl, rfl, rfl, rfl, rfl⟩ (not_writing ho nofun)
  | drops _ =>
    exact (hi.resolve_right (not_anew (by simp))).away ⟨rfl, rfl, rfl, rfl, rfl⟩ (not_writing ho nofun)
  | passes _ => exact fun h hl => Or.inl (Or.inr (Or.inr ⟨r, rfl⟩))
  | suppresses he =>
    refine (hi.resolve_right ?_).away ⟨rfl, rfl, rfl, rfl, rfl⟩ (not_writing ho nofun)
    rintro ⟨loop, c, hc, hne⟩
    cases List.mem_singleton.mp hc
    exact hne he
  | writes _ _ _ =>
    have hne : (s.setContent ⟨r.clip.mime, r.clip.content⟩).changes ≠ [] := setContent_changes ht.on
    exact fun h hl => Or.inl (Or.inl hne)
  | unwritten hnw =>
    simp only [smooth, ho, Bool.and_eq_true, decide_eq_true_eq] at hsm
    have hw := hsm.2 r rfl
    exact absurd ⟨ht.backend, hw.1, hw.2⟩ hnw
  | snapshots =>
    exact (hi.resolve_right (not_anew (by simp))).away ⟨rfl, rfl, rfl, rfl, rfl⟩ (not_writing ho nofun)
  | relayed rest _ =>
    exact (hi.resolve_right (not_anew (by simp))).away ⟨rfl, rfl, rfl, rfl, rfl⟩ (not_writing ho nofun)
  | relays rest i _ =>
    exact (hi.resolve_right (by simp [Anew])).away ⟨rfl, rfl, rfl, rfl, rfl⟩ (not_writing ho nofun)

theorem smooth_reads {ok : Bool} {target : DeviceId} (hsm : smooth D s (.watch ok target) = true)
    (hreads : Watch.reads s.watch = true) : ok = true := by
  simp only [smooth, hreads, Bool.and_eq_true, Bool.not_true, Bool.false_or] at hsm
  exact hsm.2

theorem Tracked.step (hi : Tracked cfg tr s) (hsm : smooth D s a = true) (hord : ordered cfg tr s a = true)
    (h : step cfg s a = some (s', os)) : Tracked cfg (tr ++ os) s' := by
  have hr : Carries cfg (tr ++ os) (Orchestrator.received? s.orchestrator) := hi.received.mono
  cases step_loops h with
  | other hs ho _ =>
    rw [← ho] at hr
    exact hi.same hs hr
  | taken hs _ ho' =>
    refine hi.same hs ?_
    rw [ho']
    trivial
  | copied =>
    simp only [smooth, Bool.and_eq_true, decide_eq_true_eq] at hsm
    exact (hi.changed s.orchestrator hsm.2 hr).1
  | notified => simp [smooth] at hsm
  | probed hb =>
    rw [hi.backend] at hb
    cases hb
  | ended _ _ => simp [smooth] at hsm
  | watches hm => exact hi.watches (smooth_reads hsm) hm
  | receives ho hm => exact hi.receives ho hsm hord hm

theorem Current.step (hi : Current cfg s ∨ Anew s os) (ht : Tracked cfg tr s) (hsm : smooth D s a = true)
    (h : step cfg s a = some (s', os)) : Current cfg s' := by
  cases step_loops h with
  | other hs ho hos =>
    exact (hi.resolve_right (not_anew hos)).same hs fun hset => hset.congr hs.changes (by rw [hs.watch]) ho
  | taken hs ho _ =>
    refine (hi.resolve_right (not_anew (by simp))).away hs ?_
    rw [ho]
    exact nofun
  | copied => exact fun h hl => Or.inl (Or.inl (setContent_changes ht.on))
  | notified => simp [smooth] at hsm
  | probed hb =>
    rw [ht.backend] at hb
    cases hb
  | ended _ _ => simp [smooth] at hsm
  | watches hm => exact Current.watches hi ht (smooth_reads hsm) hm
  | receives ho hm => exact Current.receives hi ht ho hsm hm

/-! ## What the devices have been sent -/

/-- A clip with the hash `h` was the last one sent to `d`, or is still to be sent. -/
def Told (cfg : Config) (tr : List Obs) (s : Daemon) (h : Bytes 32) (d : DeviceId) : Prop :=
  Watch.Owes h d s.watch ∨ Orchestrator.Owes h d (Orchestrator.received? s.orchestrator) ∨
    ∃ c, lastSent d tr = some c ∧ c.Valid cfg.crypto.blake3 ∧ c.hash = h

/-- `d`, as long as it is silent, has been told of the clip checked last, in the run or before it. -/
def Informed (cfg : Config) (tr₀ : List Obs) (d : DeviceId) (tr : List Obs) (s : Daemon) : Prop :=
  ∀ h, s.lastHash = some h → Silent d tr → Told cfg (tr₀ ++ tr) s h d

theorem lastSent_frame (hos : ∀ o ∈ os, ∀ loop id i c, o ≠ .handed loop id i c) :
    lastSent d (tr ++ os) = lastSent d tr := by
  refine lastOf_append_none fun o ho => ?_
  cases o with
  | handed loop id i c => exact absurd rfl (hos _ ho loop id i c)
  | _ => rfl

theorem lastSent_handed {loop : ClipLoop} {target : DeviceId} {i : Nat} {c : Clip} :
    lastSent d (tr ++ [.handed loop target i c]) = if target = d then some c else lastSent d tr := by
  unfold lastSent
  by_cases hd : target = d
  · rw [if_pos hd]
    exact lastOf_snoc (if_pos hd)
  · rw [if_neg hd]
    refine lastOf_append_none fun o ho => ?_
    rw [List.mem_singleton.mp ho]
    exact if_neg hd

theorem Told.mono (ht : Told cfg tr s h d) (hw : Watch.Owes h d s.watch → Watch.Owes h d s'.watch)
    (ho : Orchestrator.Owes h d (Orchestrator.received? s.orchestrator) →
      Orchestrator.Owes h d (Orchestrator.received? s'.orchestrator))
    (hos : ∀ o ∈ os, ∀ loop id i c, o ≠ .handed loop id i c) : Told cfg (tr ++ os) s' h d := by
  unfold Told
  rw [lastSent_frame hos]
  exact ht.imp hw (Or.imp_left ho)

/-- The watch goes on: what it sends is the clip checked last or comes before it. -/
theorem Informed.watches {ok : Bool} {target : DeviceId} (hi : Informed cfg tr₀ d tr s ∨ Anew s os)
    (ht : Tracked cfg tr s) (hd : d ∈ s.connectedDevices) (hord : ordered cfg tr s (.watch ok target) = true)
    (hm : WatchMove cfg s ok target s.watch s' os) : Informed cfg tr₀ d (tr ++ os) s' := by
  intro h hl hsil'
  have hsil : Silent d tr := hsil'.mono
  have hf := ht.watch
  rw [← List.append_assoc]
  have hi : ¬ Anew s os → s.lastHash = some h → Told cfg (tr₀ ++ tr) s h d :=
    fun hn hl => hi.resolve_right hn h hl hsil
  generalize hw : s.watch = w at hm hf
  cases hm with
  | skips _ _ _ _ => exact (hi (not_anew (by simp)) hl).mono (by rw [hw]; exact id) id (List.forall_mem_nil _)
  | notices _ _ => exact (hi (not_anew (by simp)) hl).mono (by rw [hw]; exact id) id (List.forall_mem_nil _)
  | unread _ _ => exact (hi (not_anew (by simp)) hl).mono (by rw [hw]; exact id) id (List.forall_mem_nil _)
  | rejects _ _ _ => exact (hi (not_anew (by simp)) hl).mono (by rw [hw]; exact id) id (List.forall_mem_nil _)
  | reads _ _ _ _ _ => exact (hi (not_anew (by simp)) hl).mono (by rw [hw]; exact id) id (List.forall_mem_nil _)
  | passes c _ =>
    obtain rfl := Option.some.inj hl
    exact Or.inl rfl
  | suppresses c he =>
    refine (hi ?_ hl).mono (by rw [hw]; exact id) id (by simp)
    rintro ⟨loop, c', hc, hne⟩
    cases List.mem_singleton.mp hc
    exact hne he
  | snapshots c =>
    refine (hi (not_anew (by simp)) hl).mono ?_ id (List.forall_mem_nil _)
    intro hown
    rw [hw] at hown
    exact ⟨hown, hd⟩
  | sent c rest he =>
    refine (hi (not_anew (by simp)) hl).mono ?_ id (List.forall_mem_nil _)
    intro hown
    rw [hw] at hown
    have hmem := Finmap.mem_keys.mpr hown.2
    rw [he] at hmem
    simp at hmem
  | sends c rest i hlook =>
    by_cases htd : target = d
    · subst htd
      have hmem : target ∈ rest := HashMap.mem_iff.mpr ⟨i, hlook⟩
      simp only [ordered, hw, decide_eq_true_eq] at hord
      rcases hord hmem hsil with hc | ⟨h', hh', hown⟩
      · refine Or.inr (Or.inr ⟨c, ?_, hf, Option.some.inj (hc.symm.trans hl)⟩)
        rw [lastSent_handed, if_pos rfl]
      · obtain rfl := Option.some.inj (hh'.symm.trans hl)
        exact Or.inr (Or.inl hown)
    · have hto := hi (by simp [Anew]) hl
      unfold Told at hto ⊢
      rw [lastSent_handed, if_neg htd]
      refine hto.imp_left fun hown => ?_
      rw [hw] at hown
      exact ⟨hown.1, Finmap.mem_erase.mpr ⟨Ne.symm htd, hown.2⟩⟩

/-- `handle_received` goes on: what it relays is the clip checked last or comes before it. -/
theorem Informed.receives {ok : Bool} {target : DeviceId} {r : Received} {pc : ReceivedPc}
    (hi : Informed cfg tr₀ d tr s ∨ Anew s os) (ht : Tracked cfg tr s) (hd : d ∈ s.connectedDevices)
    (ho : s.orchestrator = .received r pc)
    (hord : ordered cfg tr s (.orchestrate ok target) = true) (hm : ReceivedMove s r ok target pc s' os) :
    Informed cfg tr₀ d (tr ++ os) s' := by
  intro h hl hsil'
  have hsil : Silent d tr := hsil'.mono
  have hr := ht.received
  rw [← List.append_assoc]
  have hi : ¬ Anew s os → s.lastHash = some h → Told cfg (tr₀ ++ tr) s h d :=
    fun hn hl => hi.resolve_right hn h hl hsil
  rw [ho] at hr
  -- the sender of a clip that was taken in is not silent
  have hne : ¬ Silent r.sender tr → r.sender ≠ d := by
    intro hn he
    exact hn (he ▸ hsil)
  cases hm with
  | accepts _ _ => exact (hi (by simp [Anew]) hl).mono id (by rw [ho]; exact id) (by simp)
  | drops _ => exact (hi (not_anew (by simp)) hl).mono id (by rw [ho]; exact id) (List.forall_mem_nil _)
  | passes _ =>
    obtain rfl := Option.some.inj hl
    exact Or.inr (Or.inl ⟨rfl, hne hr⟩)
  | suppresses he =>
    refine (hi ?_ hl).mono id (by rw [ho]; exact id) (by simp)
    rintro ⟨loop, c', hc, hn⟩
    cases List.mem_singleton.mp hc
    exact hn he
  | writes _ _ _ => exact (hi (by simp [Anew]) hl).mono id (by rw [ho]; exact id) (by simp)
  | unwritten _ => exact (hi (not_anew (by simp)) hl).mono id (by rw [ho]; exact id) (List.forall_mem_nil _)
  | snapshots =>
    refine (hi (not_anew (by simp)) hl).mono id ?_ (List.forall_mem_nil _)
    intro hown
    rw [ho] at hown
    exact ⟨hown.1, Finmap.mem_erase.mpr ⟨Ne.symm hown.2, hd⟩⟩
  | relayed rest he =>
    refine (hi (not_anew (by simp)) hl).mono id ?_ (List.forall_mem_nil _)
    intro hown
    rw [ho] at hown
    have hmem := Finmap.mem_keys.mpr hown.2
    rw [he] at hmem
    simp at hmem
  | relays rest i hlook =>
    by_cases htd : target = d
    · subst htd
      have hmem : target ∈ rest := HashMap.mem_iff.mpr ⟨i, hlook⟩
      simp only [ordered, ho, decide_eq_true_eq] at hord
      rcases hord hmem hsil with hc | ⟨h', hh', hown⟩
      · refine Or.inr (Or.inr ⟨r.clip, ?_, hr.2, Option.some.inj (hc.symm.trans hl)⟩)
        rw [lastSent_handed, if_pos rfl]
      · obtain rfl := Option.some.inj (hh'.symm.trans hl)
        exact Or.inl hown
    · have hto := hi (by simp [Anew]) hl
      unfold Told at hto ⊢
      rw [lastSent_handed, if_neg htd]
      refine hto.imp_right (Or.imp_left fun hown => ?_)
      rw [ho] at hown
      exact ⟨hown.1, Finmap.mem_erase.mpr ⟨Ne.symm htd, hown.2⟩⟩

theorem Informed.step (hi : Informed cfg tr₀ d tr s ∨ Anew s os) (ht : Tracked cfg tr s) (hd : d ∈ D)
    (hsm : smooth D s a = true) (hord : ordered cfg tr s a = true) (h : step cfg s a = some (s', os)) :
    Informed cfg tr₀ d (tr ++ os) s' := by
  have hd : d ∈ s.connectedDevices := by
    simp only [smooth, Bool.and_eq_true, decide_eq_true_eq] at hsm
    rw [hsm.1]
    exact hd
  cases step_loops h with
  | other hs ho hos =>
    intro h hl hsil
    rw [hs.lastHash] at hl
    rw [← List.append_assoc]
    refine (hi.resolve_right (not_anew hos) h hl hsil.mono).mono (by rw [hs.watch]; exact id) (by rw [ho]; exact id) ?_
    intro o hm loop id i c he
    have := hos o hm
    rw [he] at this
    cases this
  | taken hs ho _ =>
    intro h hl hsil
    rw [hs.lastHash] at hl
    rw [← List.append_assoc]
    exact (hi.resolve_right (not_anew (by simp)) h hl hsil.mono).mono (by rw [hs.watch]; exact id)
      (by rw [ho]; exact nofun) (List.forall_mem_nil _)
  | copied =>
    intro h hl hsil
    rw [← List.append_assoc]
    exact (hi.resolve_right (by simp [Anew]) h hl hsil.mono).mono id id (by simp)
  | notified => simp [smooth] at hsm
  | probed hb =>
    rw [ht.backend] at hb
    cases hb
  | ended _ _ => simp [smooth] at hsm
  | watches hm => exact Informed.watches hi ht hd hord hm
  | receives ho hm => exact Informed.receives hi ht hd ho hord hm

/-! ## The first clip -/

/-- A clip is broadcast by the watch or taken in from a device. -/
def Obs.shares : Obs → Bool
  | .accepted .. | .handed .watch .. => true
  | _ => false

/-- Once a clip was shared there is a last hash, or is at the next check. -/
structure Begun (tr : List Obs) (s : Daemon) : Prop where
  sends : Watch.broadcasts s.watch = true → s.lastHash ≠ none
  shared : (∃ o ∈ tr, Obs.shares o = true) → s.lastHash ≠ none ∨
    ∃ r, Orchestrator.received? s.orchestrator = some (r, .shouldBroadcast)

theorem shared_append (hos : ∀ o ∈ os, Obs.shares o = false) (hx : ∃ o ∈ tr ++ os, Obs.shares o = true) :
    ∃ o ∈ tr, Obs.shares o = true := by
  obtain ⟨o, hm, ho⟩ := hx
  rcases List.mem_append.mp hm with hm | hm
  · exact ⟨o, hm, ho⟩
  · have := hos o hm
    rw [ho] at this
    cases this

theorem Begun.keep (hi : Begun tr s) (hl : s'.lastHash = s.lastHash)
    (hw : Watch.broadcasts s'.watch = true → Watch.broadcasts s.watch = true)
    (ho : ∀ r, Orchestrator.received? s.orchestrator = some (r, .shouldBroadcast) →
      Orchestrator.received? s'.orchestrator = some (r, .shouldBroadcast))
    (hos : ∀ o ∈ os, Obs.shares o = false) : Begun (tr ++ os) s' := by
  refine ⟨fun hb => ?_, fun hx => ?_⟩
  · rw [hl]
    exact hi.sends (hw hb)
  · rw [hl]
    exact (hi.shared (shared_append hos hx)).imp_right fun ⟨r, hr⟩ => ⟨r, ho r hr⟩

theorem Begun.of_hash (hl : s.lastHash ≠ none) : Begun tr s := ⟨fun _ => hl, fun _ => Or.inl hl⟩

theorem Begun.watches {ok : Bool} {target : DeviceId} (hi : Begun tr s)
    (hm : WatchMove cfg s ok target s.watch s' os) : Begun (tr ++ os) s' := by
  generalize hw : s.watch = w at hm
  cases hm with
  | skips _ _ _ _ => exact hi.keep rfl id (fun _ => id) (List.forall_mem_nil _)
  | notices _ _ => exact hi.keep rfl nofun (fun _ => id) (List.forall_mem_nil _)
  | unread _ _ => exact hi.keep rfl nofun (fun _ => id) (List.forall_mem_nil _)
  | rejects _ _ _ => exact hi.keep rfl nofun (fun _ => id) (List.forall_mem_nil _)
  | reads _ _ _ _ _ => exact hi.keep rfl nofun (fun _ => id) (List.forall_mem_nil _)
  | passes c _ => exact .of_hash nofun
  | suppresses c he =>
    refine .of_hash ?_
    rw [he]
    exact nofun
  | snapshots c => exact hi.keep rfl (fun _ => by rw [hw]; rfl) (fun _ => id) (List.forall_mem_nil _)
  | sent c rest _ => exact hi.keep rfl nofun (fun _ => id) (List.forall_mem_nil _)
  | sends c rest i _ => exact .of_hash (hi.sends (by rw [hw]; rfl))

theorem Begun.receives {ok : Bool} {target : DeviceId} {r : Received} {pc : ReceivedPc} (hi : Begun tr s)
    (ho : s.orchestrator = .received r pc) (hm : ReceivedMove s r ok target pc s' os) : Begun (tr ++ os) s' := by
  cases hm with
  | accepts _ _ => exact ⟨hi.sends, fun _ => Or.inr ⟨r, rfl⟩⟩
  | drops _ => exact hi.keep rfl id (by rw [ho]; exact nofun) (List.forall_mem_nil _)
  | passes _ => exact .of_hash nofun
  | suppresses he =>
    refine .of_hash ?_
    rw [he]
    exact nofun
  | writes _ _ _ => exact hi.keep rfl id (by rw [ho]; exact nofun) (by simp [Obs.shares])
  | unwritten _ => exact hi.keep rfl id (by rw [ho]; exact nofun) (List.forall_mem_nil _)
  | snapshots => exact hi.keep rfl id (by rw [ho]; exact nofun) (List.forall_mem_nil _)
  | relayed _ _ => exact hi.keep rfl id (by rw [ho]; exact nofun) (List.forall_mem_nil _)
  | relays _ _ _ => exact hi.keep rfl id (by rw [ho]; exact nofun) (by simp [Obs.shares])

theorem Begun.step (hi : Begun tr s) (h : step cfg s a = some (s', os)) : Begun (tr ++ os) s' := by
  cases step_loops h with
  | other hs ho hos =>
    refine hi.keep hs.lastHash (by rw [hs.watch]; exact id) (by rw [ho]; exact fun _ => id) ?_
    intro o hm
    have := hos o hm
    cases o <;> first | rfl | cases this
  | taken hs ho _ => exact hi.keep hs.lastHash (by rw [hs.watch]; exact id) (by rw [ho]; exact nofun) (List.forall_mem_nil _)
  | copied => exact hi.keep rfl id (fun _ => id) (by simp [Obs.shares])
  | notified => exact hi.keep rfl id (fun _ => id) (List.forall_mem_nil _)
  | probed _ => exact hi.keep rfl nofun (fun _ => id) (List.forall_mem_nil _)
  | ended _ _ => exact hi.keep rfl nofun (fun _ => id) (List.forall_mem_nil _)
  | watches hm => exact hi.watches hm
  | receives ho hm => exact hi.receives ho hm

/-! ## The clips checked -/

theorem anew_append : Anew s₀ (tr ++ os) ↔ Anew s₀ tr ∨ Anew s₀ os := by
  unfold Anew
  simp only [List.mem_append, or_and_right, exists_or]

/-- The last hash is moved by a check, to the hash of the clip checked. -/
theorem step_lastHash (h : step cfg s a = some (s', os)) :
    s'.lastHash = s.lastHash ∨ ∃ loop c, .checked loop c ∈ os ∧ s'.lastHash = some c.hash := by
  cases step_loops h with
  | other hs _ _ => exact Or.inl hs.lastHash
  | taken hs _ _ => exact Or.inl hs.lastHash
  | copied | notified | probed _ | ended _ _ => exact Or.inl rfl
  | watches hm =>
    generalize s.watch = w at hm
    cases hm with
    | passes c _ => exact Or.inr ⟨.watch, c, List.mem_singleton_self _, rfl⟩
    | _ => exact Or.inl rfl
  | receives _ hm =>
    cases hm with
    | passes _ => exact Or.inr ⟨.received, _, List.mem_singleton_self _, rfl⟩
    | _ => exact Or.inl rfl

/-- As long as no other clip is checked, the last hash is that of the start. -/
theorem Unmoved.step (hi : ¬ Anew s₀ tr → s.lastHash = s₀.lastHash) (h : step cfg s a = some (s', os))
    (hn : ¬ Anew s₀ (tr ++ os)) : s'.lastHash = s₀.lastHash := by
  rw [anew_append, not_or] at hn
  rcases step_lastHash h with hl | ⟨loop, c, hm, hl⟩
  · rw [hl, hi hn.1]
  · by_contra hne
    rw [hl] at hne
    exact hn.2 ⟨loop, c, hm, Ne.symm hne⟩

/-! ## The run -/

/-- Neither of the loops is at work and no notification waits. -/
def Resting (s : Daemon) : Prop := s.watch = .idle ∧ s.orchestrator = .idle ∧ s.changes = []

instance (s : Daemon) : Decidable s.Resting := inferInstanceAs (Decidable (_ ∧ _))

/-- None of the clips sent has the hash of the content without being the content. -/
def Collisionless (blake3 : List UInt8 → Bytes 32) (tr : List Obs) (content : Content) : Prop :=
  ∀ loop d i c, .handed loop d i c ∈ tr → blake3 c.content = blake3 content.bytes → c.content = content.bytes

theorem sent_mem {c : Clip} (hl : lastSent d tr = some c) : ∃ loop i, .handed loop d i c ∈ tr := by
  obtain ⟨o, ho, hs⟩ := List.mem_filterMap.mp (List.mem_of_getLast? hl)
  cases o with
  | handed loop id i c' =>
    simp only [Obs.sent, Option.ite_none_right_eq_some, Option.some.injEq] at hs
    obtain ⟨rfl, rfl⟩ := hs
    exact ⟨loop, i, ho⟩
  | _ => cases hs

variable {file : Option PersistedState} {clipboard : Content}

/-- The clip checked last, if there is one, is what the clipboard holds and what `d` was sent last. -/
def InStep (cfg : Config) (tr : List Obs) (s : Daemon) (d : DeviceId) : Prop :=
  ∀ h, s.lastHash = some h →
    Shows cfg s.clipboard h ∧ ∃ c, lastSent d tr = some c ∧ c.Valid cfg.crypto.blake3 ∧ c.hash = h

/-- All that is kept along the run; what it says of the clip checked last holds
from the start on or from the first check of another clip. -/
structure Converging (cfg : Config) (tr₀ : List Obs) (s₀ : Daemon) (d : DeviceId) (tr : List Obs) (s : Daemon) :
    Prop where
  tracked : Tracked cfg tr s
  begun : Begun tr s
  unmoved : ¬ Anew s₀ tr → s.lastHash = s₀.lastHash
  known : InStep cfg tr₀ s₀ d ∨ Anew s₀ tr → Current cfg s ∧ Informed cfg tr₀ d tr s

theorem Converging.initial (h₀ : s₀.Resting) (hb₀ : s₀.backend = true) : Converging cfg tr₀ s₀ d [] s₀ := by
  obtain ⟨hw₀, ho₀, hch₀⟩ := h₀
  refine ⟨⟨hb₀, by simp [hch₀], fun hne => absurd hch₀ hne, by rw [hw₀]; trivial, by rw [ho₀]; trivial⟩,
    ⟨by simp [hw₀, Watch.broadcasts], by simp⟩, fun _ => rfl, ?_⟩
  rintro (hstep | ⟨_, _, hm, _⟩)
  · refine ⟨fun h hl => Or.inr (hstep h hl).1, fun h hl _ => Or.inr (Or.inr ?_)⟩
    rw [List.append_nil]
    exact (hstep h hl).2
  · cases hm

theorem Converging.step (hi : Converging cfg tr₀ s₀ d tr s) (hd : d ∈ D) (hsm : smooth D s a = true)
    (hord : ordered cfg tr s a = true) (h : step cfg s a = some (s', os)) :
    Converging cfg tr₀ s₀ d (tr ++ os) s' := by
  refine ⟨hi.tracked.step hsm hord h, hi.begun.step h, Unmoved.step hi.unmoved h, fun hk => ?_⟩
  have hnow : (Current cfg s ∧ Informed cfg tr₀ d tr s) ∨ Anew s os := by
    by_cases hbefore : InStep cfg tr₀ s₀ d ∨ Anew s₀ tr
    · exact Or.inl (hi.known hbefore)
    · rw [not_or] at hbefore
      obtain ⟨loop, c, hm, hne⟩ := (anew_append.mp (hk.resolve_left hbefore.1)).resolve_left hbefore.2
      refine Or.inr ⟨loop, c, hm, ?_⟩
      rw [hi.unmoved hbefore.2]
      exact hne
  exact ⟨.step (hnow.imp_left And.left) hi.tracked hsm h,
    .step (hnow.imp_left And.right) hi.tracked hd hsm hord h⟩

/-- A connected device that sent nothing was sent last what the clipboard holds,
once a clip was shared and nothing is pending any more. At the start it had the
clip checked last, or another clip is checked in the run. -/
theorem run_converges (h₀ : s₀.Resting) (hb₀ : s₀.backend = true)
    (h : Path (system cfg file clipboard)
      (fun tr s a => smooth s₀.connectedDevices s a = true ∧ ordered cfg tr s a = true) [] s₀ tr s)
    (hrest : s.Resting) (hx : ∃ o ∈ tr, Obs.shares o = true) (hd : d ∈ s₀.connectedDevices)
    (hstart : InStep cfg tr₀ s₀ d ∨ Anew s₀ tr) (hcol : Collisionless cfg.crypto.blake3 (tr₀ ++ tr) s.clipboard)
    (hsil : Silent d tr) : ∃ c, lastSent d (tr₀ ++ tr) = some c ∧ Clip.text c = s.clipboard := by
  obtain ⟨hw, ho, hch⟩ := hrest
  have hi : Converging cfg tr₀ s₀ d tr s :=
    h.invariant (.initial h₀ hb₀) fun tr s a s' os hi hc hs => hi.step hd hc.1 hc.2 hs
  obtain ⟨hcur, hinf⟩ := hi.known hstart
  obtain ⟨k, hk⟩ : ∃ k, s.lastHash = some k := by
    rcases hi.begun.shared hx with hne | ⟨r, hr⟩
    · exact Option.ne_none_iff_exists'.mp hne
    · rw [ho] at hr
      cases hr
  have hshow : Shows cfg s.clipboard k := by
    rcases hcur k hk with hset | hshow
    · simp [Settling, hch, hw, ho, Watch.looks, Orchestrator.received?] at hset
    · exact hshow
  obtain ⟨c, hc, hv, hck⟩ : ∃ c, lastSent d (tr₀ ++ tr) = some c ∧ c.Valid cfg.crypto.blake3 ∧ c.hash = k := by
    rcases hinf k hk hsil with hown | hown | hsent
    · rw [hw] at hown
      exact hown.elim
    · rw [ho] at hown
      exact hown.elim
    · exact hsent
  obtain ⟨loop, i, hm⟩ := sent_mem hc
  have hcont : c.content = s.clipboard.bytes := by
    apply hcol loop d i c hm
    rw [← hv.hash, hck, hshow.2]
  refine ⟨c, hc, ?_⟩
  unfold Clip.text
  rw [hcont, hv.mime, ← hshow.1]

end

def Sample.both : List Act :=
  Sample.pair 0 (Sample.addr 2) Sample.phoneKey ++ Sample.pair 1 (Sample.addr 3) Sample.tabletKey ++ [.probe]

open Sample in
theorem both_enabled : (exec (system cfg none empty) anyway [] (initial none empty) both).isSome = true := by
  decide +kernel

def Sample.joined : Daemon := ((exec (system Sample.cfg none Sample.empty) anyway []
  (initial none Sample.empty) Sample.both).get both_enabled).2

/-- `handle_received` has taken its handles for the phone's clip when another text
is copied and sent to both; then it relays the clip to the tablet. -/
def Sample.overtaken : List Act :=
  Sample.share 0 Sample.clipB ++ Sample.turns 5 ++ [.copy ⟨mimeTextPlain, [65]⟩] ++
    List.replicate 4 (.watch true Sample.phone) ++ [.watch true Sample.phone, .watch true Sample.tablet] ++
    List.replicate 4 (.watch true Sample.phone) ++ [.orchestrate true Sample.tablet, .orchestrate true Sample.tablet]

open Sample in
/-- The tablet is left with the phone's clip, the clipboard with the text. -/
theorem overtaken_diverged : ∃ tr₀ s₀ tr s, Run (system cfg none empty) always tr₀ s₀ ∧ s₀.Resting ∧
    s₀.backend = true ∧ s₀.lastHash = none ∧
    Path (system cfg none empty) (fun _ s a => smooth s₀.connectedDevices s a = true) [] s₀ tr s ∧ s.Resting ∧
    (∃ o ∈ tr, Obs.shares o = true) ∧ tablet ∈ s₀.connectedDevices ∧ Silent tablet tr ∧
    lastSent tablet tr = some clipB ∧ s.clipboard ≠ Clip.text clipB := by
  have hrun : (exec (system cfg none empty) anyway [] (initial none empty) both).any (fun r₀ =>
      decide (r₀.2.Resting ∧ r₀.2.backend = true ∧ r₀.2.lastHash = none ∧ tablet ∈ r₀.2.connectedDevices) &&
      (exec (system cfg none empty) (fun _ s a => smooth r₀.2.connectedDevices s a) [] r₀.2 overtaken).any fun r =>
        decide (r.2.Resting ∧ (∃ o ∈ r.1, Obs.shares o = true) ∧ Silent tablet r.1 ∧
          lastSent tablet r.1 = some clipB ∧ r.2.clipboard ≠ Clip.text clipB)) = true := by
    decide +kernel
  obtain ⟨⟨tr₀, s₀⟩, he₀, hfacts⟩ := (Option.any_eq_true _ _).mp hrun
  obtain ⟨hpre, hrest⟩ := Bool.and_eq_true_iff.mp hfacts
  obtain ⟨⟨tr, s⟩, he, hpost⟩ := (Option.any_eq_true _ _).mp hrest
  obtain ⟨hr₀, hb, hl, hd⟩ := of_decide_eq_true hpre
  obtain ⟨hr, hx, hsil, hsent, hc⟩ := of_decide_eq_true hpost
  exact ⟨tr₀, s₀, tr, s, .exec (fun _ _ _ _ => trivial) (.init rfl) he₀, hr₀, hb, hl,
    .exec (fun _ _ _ h => h) .refl he, hr, hx, hd, hsil, hsent, hc⟩

/-- As before, but the relay comes between the watch's check and its sends. -/
def Sample.caughtUp : List Act :=
  Sample.share 0 Sample.clipB ++ Sample.turns 5 ++ [.copy ⟨mimeTextPlain, [65]⟩] ++
    List.replicate 4 (.watch true Sample.phone) ++ [.orchestrate true Sample.tablet, .orchestrate true Sample.tablet] ++
    [.watch true Sample.phone, .watch true Sample.tablet] ++ List.replicate 4 (.watch true Sample.phone)

open Sample in
theorem caughtUp_enabled : (exec (system cfg none empty)
    (fun tr s a => smooth joined.connectedDevices s a && ordered cfg tr s a) [] joined caughtUp).isSome = true := by
  decide +kernel

theorem Sample.only_A {content : List UInt8} (h : crypto.blake3 content = hashA) : content = [65] := by
  simp only [crypto] at h
  split at h
  · assumption
  · split at h
    · exact absurd h (by decide)
    · exact absurd h (by decide)

open Sample in
theorem run_converges_caughtUp :
    let r := (exec (system cfg none empty)
      (fun tr s a => smooth joined.connectedDevices s a && ordered cfg tr s a) [] joined caughtUp).get caughtUp_enabled
    ∃ c, lastSent tablet r.1 = some c ∧ Clip.text c = r.2.clipboard := by
  intro r
  have hpath := Path.exec (C := fun tr s a => smooth joined.connectedDevices s a = true ∧ ordered cfg tr s a = true)
    (fun tr s a h => by simpa using h) .refl (Option.eq_some_of_isSome caughtUp_enabled)
  have ⟨hr₀, hb, hl, hd, hr, hx, hsil, hclip⟩ : joined.Resting ∧ joined.backend = true ∧ joined.lastHash = none ∧
      tablet ∈ joined.connectedDevices ∧ r.2.Resting ∧ (∃ o ∈ r.1, Obs.shares o = true) ∧ Silent tablet r.1 ∧
      r.2.clipboard = ⟨mimeTextPlain, [65]⟩ := by decide +kernel
  show ∃ c, lastSent tablet ([] ++ r.1) = some c ∧ Clip.text c = r.2.clipboard
  refine run_converges hr₀ hb hpath hr hx hd (Or.inl fun h hh => ?_) ?_ hsil
  · rw [hl] at hh
    cases hh
  · intro loop d i c _ hc
    rw [hclip] at hc ⊢
    exact only_A hc

end Daemon

end PenguinSync
