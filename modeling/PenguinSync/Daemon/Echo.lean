import PenguinSync.Daemon.Loops

/-!
# No echo

What `handle_received` writes comes back as a change notification, and the
watch knows it by the hash checked last. It does so as long as the hash it
compares with belongs to the content it has read: no other clip is checked
between its read and its check, it does not read between the check of a clip and
the write of it, and each write leaves on the clipboard what was checked.
-/

namespace PenguinSync

open Lts

/-- Were the content read now, its clip would carry the hash `h`. -/
def Content.ReadsAs (blake3 : List UInt8 → Bytes 32) (content : Content) (h : Bytes 32) : Prop :=
  content.mime = mimeTextPlain → content.bytes.length ≤ maxContentLen → blake3 content.bytes = h

instance (blake3 : List UInt8 → Bytes 32) (content : Content) (h : Bytes 32) : Decidable (content.ReadsAs blake3 h) :=
  inferInstanceAs (Decidable (_ → _ → _))

theorem Content.ReadsAs.hash {blake3 : List UInt8 → Bytes 32} {content : Content} {h : Bytes 32} {mime : String}
    {c : Clip} (hr : content.ReadsAs blake3 h) (hm : content.mime = mimeTextPlain)
    (hc : Clip.new blake3 mime content.bytes = .ok c) : c.hash = h := by
  obtain ⟨hv, hb⟩ := Clip.valid_of_new hc
  have hs := hv.size
  rw [hb] at hs
  rw [hv.hash, hb]
  exact hr hm hs

namespace Daemon

def Noticed (s : Daemon) : Prop := s.changes ≠ [] ∨ Watch.reads s.watch = true

instance (s : Daemon) : Decidable s.Noticed := inferInstanceAs (Decidable (_ ∨ _))

/-- Nobody copies anything, and no notification comes without a change. -/
def untouched : Act → Bool
  | .copy _ | .notify => false
  | _ => true

/-- The step changes neither the clipboard from outside nor the last hash under the watch's hands. -/
def steady (cfg : Config) (s : Daemon) : Act → Bool
  | .copy _ | .notify => false
  | .watch ok _ => decide (ok = true → Watch.reads s.watch = true →
      ∀ r ∈ Orchestrator.writes? s.orchestrator, s.clipboard.ReadsAs cfg.crypto.blake3 r.clip.hash)
  | .orchestrate ok _ =>
    match s.orchestrator with
    | .received r .shouldBroadcast =>
      match s.watch with
      | .checking _ => decide (s.lastHash = some r.clip.hash)
      | _ => true
    | .received r .write =>
      if s.backend ∧ ok ∧ fromUtf8 r.clip.content ≠ none then
        decide (Watch.on s.watch = true → Content.ReadsAs cfg.crypto.blake3 ⟨r.clip.mime, r.clip.content⟩ r.clip.hash)
      else decide (s.Noticed → s.clipboard.ReadsAs cfg.crypto.blake3 r.clip.hash)
    | _ => true
  | _ => true

/-- The watch has nothing to send, and what it has read or is going to read carries the last hash. -/
structure Hushed (cfg : Config) (s : Daemon) : Prop where
  off : s.watch = .off → s.changes = []
  silent : Watch.broadcasts s.watch = false
  checking : ∀ c, s.watch = .checking c → s.lastHash = some c.hash
  writing : ∀ r, Orchestrator.received? s.orchestrator = some (r, .write) → s.lastHash = some r.clip.hash
  synced : s.Noticed → (∃ r, Orchestrator.received? s.orchestrator = some (r, .write)) ∨
    ∃ h, s.lastHash = some h ∧ s.clipboard.ReadsAs cfg.crypto.blake3 h

section
variable {cfg : Config} {s s' : Daemon} {tr os : List Obs} {a : Act}

theorem Hushed.congr (hi : Hushed cfg s) (hs : SameLoops s s')
    (ho : Orchestrator.received? s'.orchestrator = Orchestrator.received? s.orchestrator) : Hushed cfg s' := by
  obtain ⟨hc, hch, hw, hl, -⟩ := hs
  obtain ⟨hoff, hsil, hck, hwr, hsy⟩ := hi
  rw [← hw] at hoff hsil hck
  rw [← hch] at hoff
  rw [← hl] at hck hwr hsy
  rw [← ho] at hwr hsy
  rw [← hc] at hsy
  refine ⟨hoff, hsil, hck, hwr, fun hn => hsy ?_⟩
  unfold Noticed at hn ⊢
  rwa [← hch, ← hw]

theorem Hushed.away (hi : Hushed cfg s) (hs : SameLoops s s')
    (ho : ∀ r, Orchestrator.received? s.orchestrator ≠ some (r, .write))
    (ho' : ∀ r, Orchestrator.received? s'.orchestrator ≠ some (r, .write)) : Hushed cfg s' := by
  obtain ⟨hc, hch, hw, hl, -⟩ := hs
  obtain ⟨hoff, hsil, hck, -, hsy⟩ := hi
  rw [← hw] at hoff hsil hck
  rw [← hch] at hoff
  rw [← hl] at hck hsy
  rw [← hc] at hsy
  refine ⟨hoff, hsil, hck, fun r hr => absurd hr (ho' r), fun hn => ?_⟩
  unfold Noticed at hn hsy
  rw [hch, hw] at hn
  rcases hsy hn with ⟨r, hr⟩ | h
  · exact absurd hr (ho r)
  · exact Or.inr h

/-- The watch goes on: what it reads carries the last hash, so its check stops it. -/
theorem Hushed.watch {ok : Bool} {target : DeviceId} (hi : Hushed cfg s) (hc : steady cfg s (.watch ok target) = true)
    (hm : WatchMove cfg s ok target s.watch s' os) : Hushed cfg s' ∧ ∀ o ∈ os, ∀ d i c, o ≠ .handed .watch d i c := by
  obtain ⟨hoff, hsil, hck, hwr, hsy⟩ := hi
  generalize hw : s.watch = w at hm
  cases hm with
  | skips mime rest hch _ =>
    refine ⟨⟨fun h => ?_, hsil, hck, hwr, fun _ => hsy (Or.inl ?_)⟩, List.forall_mem_nil _⟩
    · rw [hw] at h
      cases h
    · rw [hch]
      simp
  | notices rest hch =>
    refine ⟨⟨nofun, rfl, nofun, hwr, fun _ => hsy (Or.inl ?_)⟩, List.forall_mem_nil _⟩
    rw [hch]
    simp
  | unread mime _ =>
    exact ⟨⟨nofun, rfl, nofun, hwr, fun hn => hsy (hn.imp_right nofun)⟩, List.forall_mem_nil _⟩
  | rejects mime e _ =>
    exact ⟨⟨nofun, rfl, nofun, hwr, fun hn => hsy (hn.imp_right nofun)⟩, List.forall_mem_nil _⟩
  | reads mime c hok hmime hnew =>
    have hr : Watch.reads s.watch = true := by rw [hw]; rfl
    have hl : s.lastHash = some c.hash := by
      rcases hsy (Or.inr hr) with ⟨r, ho⟩ | ⟨h, hl, hra⟩
      · have hra := of_decide_eq_true hc hok hr r (writes?_of_received? ho)
        rw [hwr r ho, hra.hash hmime hnew]
      · rw [hl, hra.hash hmime hnew]
    refine ⟨⟨nofun, rfl, fun c' hc' => ?_, hwr, fun hn => hsy (hn.imp_right nofun)⟩, List.forall_mem_nil _⟩
    cases hc'
    exact hl
  | passes c hn => exact absurd (hck c hw) hn
  | suppresses c _ =>
    refine ⟨⟨nofun, rfl, nofun, hwr, fun hn => hsy (hn.imp_right nofun)⟩, fun o ho d i c' he => ?_⟩
    rw [List.mem_singleton.mp ho] at he
    cases he
  | snapshots c =>
    rw [hw] at hsil
    cases hsil
  | sent c rest _ =>
    rw [hw] at hsil
    cases hsil
  | sends c rest i _ =>
    rw [hw] at hsil
    cases hsil

/-- `handle_received` goes on: a check it passes is not made behind the watch's back. -/
theorem Hushed.received {ok : Bool} {target : DeviceId} {r : Received} {pc : ReceivedPc} (hi : Hushed cfg s)
    (hc : steady cfg s (.orchestrate ok target) = true) (ho : s.orchestrator = .received r pc)
    (hm : ReceivedMove s r ok target pc s' os) : Hushed cfg s' ∧ ∀ o ∈ os, ∀ d i c, o ≠ .handed .watch d i c := by
  have ⟨hoff, hsil, hck, hwr, _⟩ := hi
  simp only [steady] at hc
  rw [ho] at hc hwr
  cases hm with
  | accepts _ _ => exact ⟨hi.away ⟨rfl, rfl, rfl, rfl, rfl⟩ (not_writing ho nofun) nofun, by simp⟩
  | drops _ => exact ⟨hi.away ⟨rfl, rfl, rfl, rfl, rfl⟩ (not_writing ho nofun) nofun, List.forall_mem_nil _⟩
  | passes hn =>
    refine ⟨⟨hoff, hsil, fun c hw => ?_, fun r' hr' => ?_, fun _ => Or.inl ⟨r, rfl⟩⟩, by simp⟩
    · simp only at hw hc
      rw [hw] at hc
      exact absurd (of_decide_eq_true hc) hn
    · cases hr'
      rfl
  | suppresses _ => exact ⟨hi.away ⟨rfl, rfl, rfl, rfl, rfl⟩ (not_writing ho nofun) nofun, by simp⟩
  | writes hb hok hu =>
    have hl : s.lastHash = some r.clip.hash := hwr r rfl
    simp only at hc
    rw [if_pos ⟨hb, hok, hu⟩] at hc
    refine ⟨⟨fun hw => ?_, hsil, hck, nofun, fun hn => Or.inr ⟨_, hl, ?_⟩⟩, by simp⟩
    · simp only [setContent] at hw ⊢
      rw [hw]
      exact hoff hw
    · refine of_decide_eq_true hc ?_
      cases hw : s.watch with
      | off =>
        simp only [Noticed, setContent, hw, hoff hw] at hn
        exact hn.elim (absurd rfl) nofun
      | _ => rfl
  | unwritten hnw =>
    simp only at hc
    rw [if_neg hnw] at hc
    exact ⟨⟨hoff, hsil, hck, nofun, fun hn => Or.inr ⟨_, hwr r rfl, of_decide_eq_true hc hn⟩⟩, List.forall_mem_nil _⟩
  | snapshots => exact ⟨hi.away ⟨rfl, rfl, rfl, rfl, rfl⟩ (not_writing ho nofun) nofun, List.forall_mem_nil _⟩
  | relayed rest _ => exact ⟨hi.away ⟨rfl, rfl, rfl, rfl, rfl⟩ (not_writing ho nofun) nofun, List.forall_mem_nil _⟩
  | relays rest i _ => exact ⟨hi.away ⟨rfl, rfl, rfl, rfl, rfl⟩ (not_writing ho nofun) nofun, by simp⟩

theorem Hushed.step (hi : Hushed cfg s) (hc : steady cfg s a = true) (h : step cfg s a = some (s', os)) :
    Hushed cfg s' ∧ ∀ o ∈ os, ∀ d i c, o ≠ .handed .watch d i c := by
  cases step_loops h with
  | other hs ho hos =>
    refine ⟨hi.congr hs ho, fun o hm d i c he => ?_⟩
    have := hos o hm
    rw [he] at this
    cases this
  | taken hs ho ho' =>
    refine ⟨hi.away hs ?_ ?_, List.forall_mem_nil _⟩
    · rw [ho]
      exact nofun
    · rw [ho']
      exact nofun
  | copied => cases hc
  | notified => cases hc
  | probed _ =>
    obtain ⟨hoff, hsil, hck, hwr, hsy⟩ := hi
    exact ⟨⟨nofun, rfl, nofun, hwr, fun hn => hsy (hn.imp_right nofun)⟩, List.forall_mem_nil _⟩
  | ended hw hch =>
    obtain ⟨hoff, hsil, hck, hwr, hsy⟩ := hi
    exact ⟨⟨fun _ => hch, rfl, nofun, hwr, fun hn => hsy (hn.imp_right nofun)⟩, List.forall_mem_nil _⟩
  | watches hm => exact hi.watch hc hm
  | receives ho hm => exact hi.received hc ho hm

variable {file : Option PersistedState} {clipboard : Content}

theorem hushed_initial : Hushed cfg (initial file clipboard) :=
  ⟨fun _ => rfl, rfl, nofun, nofun, fun h => absurd h (by simp [Noticed, initial, Watch.reads])⟩

/-- Where nobody copies anything and every step is steady, the watch sends nothing. -/
theorem run_unechoed (h : Run (system cfg file clipboard) (fun _ s a => steady cfg s a = true) tr s)
    (d : DeviceId) (i : Nat) (c : Clip) :
    .handed .watch d i c ∉ tr := by
  have hi : Hushed cfg s ∧ ∀ o ∈ tr, ∀ d i c, o ≠ .handed .watch d i c := by
    refine h.invariant (I := fun tr s => Hushed cfg s ∧ ∀ o ∈ tr, ∀ d i c, o ≠ .handed .watch d i c) (fun s h0 => ?_)
      (fun tr s a s' os _ hi hc hs => ?_)
    · rw [h0]
      exact ⟨hushed_initial, List.forall_mem_nil _⟩
    · obtain ⟨hi', hos⟩ := hi.1.step hc hs
      refine ⟨hi', fun o ho => ?_⟩
      rcases List.mem_append.mp ho with ho | ho
      · exact hi.2 o ho
      · exact hos o ho
  exact fun hm => hi.2 _ hm d i c rfl

end

/-- The phone's clip is applied and read back while a second clip of the phone is checked. -/
def Sample.burst : List Act :=
  Sample.pair 0 (Sample.addr 2) Sample.phoneKey ++ [.probe] ++ Sample.share 0 Sample.clipA ++ Sample.turns 6 ++
    List.replicate 2 (.watch true Sample.phone) ++ Sample.share 0 Sample.clipB ++ Sample.turns 3 ++
    List.replicate 3 (.watch true Sample.phone)

open Sample in
theorem burst_enabled :
    (exec (system cfg none empty) (fun _ _ a => untouched a) [] (initial none empty) burst).isSome = true := by
  decide +kernel

open Sample in
/-- The watch finds the hash of the second clip and sends the first one back to the phone. -/
theorem burst_echoed : ∃ tr s, Run (system cfg none empty) (fun _ _ a => untouched a = true) tr s ∧
    .applied phone clipA ∈ tr ∧ .handed .watch phone 0 clipA ∈ tr :=
  ⟨_, _, run_of_exec (fun _ _ _ h => h) rfl burst_enabled, by decide +kernel, by decide +kernel⟩

/-- The same two clips one after the other, each read back before the next is checked. -/
def Sample.spaced : List Act :=
  Sample.pair 0 (Sample.addr 2) Sample.phoneKey ++ [.probe] ++ Sample.share 0 Sample.clipA ++ Sample.turns 6 ++
    List.replicate 3 (.watch true Sample.phone) ++ Sample.share 0 Sample.clipB ++ Sample.turns 6 ++
    List.replicate 3 (.watch true Sample.phone)

open Sample in
theorem spaced_enabled :
    (exec (system cfg none empty) (fun _ s a => steady cfg s a) [] (initial none empty) spaced).isSome = true := by
  decide +kernel

open Sample in
theorem run_unechoed_spaced :
    let tr := ((exec (system cfg none empty) (fun _ s a => steady cfg s a) [] (initial none empty) spaced).get
      spaced_enabled).1
    .applied phone clipA ∈ tr ∧ .handed .watch phone 0 clipA ∉ tr :=
  ⟨by decide +kernel, run_unechoed (run_of_exec (fun _ _ _ h => h) rfl spaced_enabled) phone 0 clipA⟩

end Daemon

end PenguinSync
