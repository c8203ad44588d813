import PenguinSync.Ffi.Moves

/-!
# The paired peers on disk

Each forwarder reads the list, adds its peer and replaces the file, with no
lock around the three. What the file owes is kept beside the core: the peer of
a forwarder that received its handshake while saving worked, and whatever the
file held then.
-/

namespace PenguinSync

open Lts

namespace Ffi

/-! ## Adding a peer -/

namespace PersistedPeers

variable {s : PersistedPeers} {id d : DeviceId} {name : String}

theorem keeps_upsertIn {hex : String} : ∀ {ds : List PersistedDevice} {e : PersistedDevice}, e ∈ ds →
    ∃ e' ∈ PersistedState.upsertIn hex name ds, e'.deviceId = e.deviceId
  | x :: ds, e, he => by
    unfold PersistedState.upsertIn
    by_cases hx : x.deviceId = hex
    · rw [if_pos hx]
      rcases List.mem_cons.mp he with rfl | he
      · exact ⟨_, List.mem_cons_self, rfl⟩
      · exact ⟨e, List.mem_cons_of_mem _ he, rfl⟩
    · rw [if_neg hx]
      rcases List.mem_cons.mp he with rfl | he
      · exact ⟨e, List.mem_cons_self, rfl⟩
      · obtain ⟨e', he', hd⟩ := keeps_upsertIn he
        exact ⟨e', List.mem_cons_of_mem _ he', hd⟩

theorem adds_upsertIn {hex : String} : ∀ ds : List PersistedDevice,
    ∃ e ∈ PersistedState.upsertIn hex name ds, e.deviceId = hex
  | [] => ⟨_, List.mem_singleton_self _, rfl⟩
  | x :: ds => by
    unfold PersistedState.upsertIn
    by_cases hx : x.deviceId = hex
    · rw [if_pos hx]
      exact ⟨_, List.mem_cons_self, hx⟩
    · obtain ⟨e, he, hd⟩ := adds_upsertIn ds
      rw [if_neg hx]
      exact ⟨e, List.mem_cons_of_mem _ he, hd⟩

theorem mem_deviceIds : d ∈ s.deviceIds ↔ ∃ e ∈ s.peers, fromHex e.deviceId = some d := List.mem_filterMap

theorem mem_upsert_of_mem (h : d ∈ s.deviceIds) : d ∈ (s.upsert id name).deviceIds := by
  obtain ⟨e, he, hd⟩ := mem_deviceIds.mp h
  obtain ⟨e', he', hid⟩ := keeps_upsertIn he
  exact mem_deviceIds.mpr ⟨e', he', hid ▸ hd⟩

theorem mem_upsert_self : id ∈ (s.upsert id name).deviceIds := by
  obtain ⟨e, he, hid⟩ := adds_upsertIn s.peers
  exact mem_deviceIds.mpr ⟨e, he, by rw [hid, fromHex_toHex]⟩

end PersistedPeers

/-! ## Saving -/

def Forwarder.saves : Forwarder → Bool
  | .write _ _ | .rename _ => true
  | _ => false

def Forwarder.busy : Forwarder → Bool
  | .load _ | .write _ _ | .rename _ => true
  | _ => false

namespace Core

def onDisk (c : Core) : List DeviceId := (PersistedPeers.load c.peers).deviceIds

def hears (c : Core) (q : Nat) : Bool :=
  match (c.runs q).forwarder, (c.runs q).channel with
  | .recv, e :: _ => isPeerHandshake e
  | _, _ => false

end Core

/-! ## What the file owes -/

/-- `granted q`: the last handshake of `q` came at a moment when saving succeeds. -/
structure Watched where
  core : Core
  granted : Nat → Bool
  due : List DeviceId

namespace Watched

structure Moment where
  act : Act
  savable : Bool

/-- A save that is granted does not fail by itself; the temporary file may still be missing. -/
def allows (w : Watched) : Act → Bool
  | .write q o => !w.granted q || o = .whole
  | .rename q ok => !w.granted q || ok || w.core.peersTmp = none
  | _ => true

def note (w : Watched) (c : Core) (a : Moment) : Watched :=
  match a.act with
  | .forward q =>
    if w.core.hears q then
      { core := c, granted := Function.update w.granted q a.savable
        due := if a.savable then (w.core.runs q).peerId :: w.core.onDisk ++ w.due else w.due }
    else { w with core := c }
  | _ => { w with core := c }

def step (cfg : Config) (w : Watched) (a : Moment) : Option (Watched × List Obs) :=
  if w.allows a.act then (Core.step cfg w.core a.act).map fun r => (w.note r.1 a, r.2) else none

def new (peers peersTmp : PeersFile) : Watched :=
  { core := .new peers peersTmp, granted := fun _ => false, due := [] }

def system (cfg : Config) : System Watched Moment Obs :=
  { init := fun w => ∃ peers peersTmp, w = new peers peersTmp, step := step cfg }

def Quiescent (w : Watched) : Prop := ∀ q, (w.core.runs q).forwarder.busy = false

def Kept (w : Watched) : Prop := w.Quiescent → ∀ id ∈ w.due, id ∈ w.core.onDisk

/-- A load reads the peers of others, while nobody else is saving; a forwarder
past its one attempt gets no handshake while saving works but with its peer on disk. -/
def Calm (w : Watched) (a : Moment) : Prop :=
  match a.act with
  | .load q read => (read = true ∨ ∀ id ∈ w.core.onDisk, id = (w.core.runs q).peerId) ∧
      ∀ q' < w.core.started, q' ≠ q → (w.core.runs q').forwarder.saves = false
  | .forward q => w.core.hears q = true → a.savable = true → (w.core.runs q).persisted = true →
      (w.core.runs q).peerId ∈ w.core.onDisk
  | _ => True

end Watched

/-! ## What a step does to the file -/

namespace Core

variable {cfg : Config} {c c' : Core} {a : Act} {os : List Obs}

def side (c : Core) (k : Nat) : Forwarder × DeviceId := ((c.runs k).forwarder, (c.runs k).peerId)

/-- All runs but `q` look the same from the file. -/
def SameBut (c c' : Core) (q : Nat) : Prop := ∀ k, k ≠ q → c'.side k = c.side k

inductive FileMove (c c' : Core) : Act → Prop
  | apart {a : Act} : c'.peers = c.peers → c'.peersTmp = c.peersTmp → (∀ k, c'.side k = c.side k) →
      (∀ q, a = .forward q → c.hears q = true → (c.runs q).persisted = true) → FileMove c c' a
  | paired {decoded : Except String QrPayload} {endpoint : Except String Unit} (id : DeviceId) :
      c'.peers = c.peers → c'.peersTmp = c.peersTmp → c.SameBut c' c.started →
      c'.side c.started = (.recv, id) → c'.started = c.started + 1 → FileMove c c' (.pair decoded endpoint)
  | begins (q : Nat) (e : DialerEvent) : c'.peers = c.peers → c'.peersTmp = c.peersTmp → c.SameBut c' q →
      c.hears q = true → (c.runs q).forwarder = .recv → c'.side q = (.load e, (c.runs q).peerId) →
      FileMove c c' (.forward q)
  | exits (q : Nat) : c'.peers = c.peers → c'.peersTmp = c.peersTmp → c.SameBut c' q → c.hears q = false →
      (c.runs q).forwarder = .recv → c'.side q = (.exited, (c.runs q).peerId) →
      FileMove c c' (.forward q)
  | loads (q : Nat) (read : Bool) (e : DialerEvent) : c'.peers = c.peers → c'.peersTmp = c.peersTmp →
      c.SameBut c' q → (c.runs q).forwarder = .load e →
      c'.side q = (.write ((PersistedPeers.load (if read then c.peers else none)).upsert (c.runs q).peerId
        (c.runs q).peerName) e, (c.runs q).peerId) → FileMove c c' (.load q read)
  | writes (q : Nat) (peers : PersistedPeers) (e : DialerEvent) : c'.peers = c.peers →
      c'.peersTmp = some (some peers) → c.SameBut c' q → (c.runs q).forwarder = .write peers e →
      c'.side q = (.rename e, (c.runs q).peerId) → FileMove c c' (.write q .whole)
  | tears (q : Nat) (peers : PersistedPeers) (e : DialerEvent) (o : Written) : o ≠ .whole → c'.peers = c.peers →
      c.SameBut c' q → (c.runs q).forwarder = .write peers e →
      c'.side q = (.recv, (c.runs q).peerId) → FileMove c c' (.write q o)
  | replaces (q : Nat) (e : DialerEvent) (content : Option PersistedPeers) : c.peersTmp = some content →
      c'.peers = some content → c.SameBut c' q → (c.runs q).forwarder = .rename e →
      c'.side q = (.recv, (c.runs q).peerId) → FileMove c c' (.rename q true)
  | fails (q : Nat) (e : DialerEvent) : c'.peers = c.peers → c'.peersTmp = c.peersTmp → c.SameBut c' q →
      (c.runs q).forwarder = .rename e → c'.side q = (.recv, (c.runs q).peerId) →
      FileMove c c' (.rename q false)

theorem side_setRun (r : PairRun) (q : Nat) : (c.setRun q r).side q = (r.forwarder, r.peerId) := by
  unfold side
  rw [setRun_self]

theorem sameBut_setRun (r : PairRun) (q : Nat) : c.SameBut (c.setRun q r) q := by
  intro k hk
  unfold side
  rw [setRun_of_ne hk]

theorem side_same {r : PairRun} {q : Nat}
    (h : (r.forwarder, r.peerId) = c.side q) (k : Nat) : (c.setRun q r).side k = c.side k := by
  by_cases hk : k = q
  · rw [hk, side_setRun, h]
  · exact sameBut_setRun r q k hk

theorem step_side {r r' : PairRun} {a : PairRun.Act} {outs : List (SessionHandle × Output)}
    (hl : r.dialer.receiverDropped = false) (h : r.step a = some (r', outs)) :
    (r'.forwarder, r'.peerId) = (r.forwarder, r.peerId) := by
  cases (PairRun.step_move hl h).1 <;> rfl

theorem step_fileMove (hl : ∀ k, (c.runs k).dialer.receiverDropped = false) (h : Core.step cfg c a = some (c', os)) :
    FileMove c c' a := by
  cases a with
  | pair decoded endpoint =>
    cases h
    have hp : ∀ o, c.pair cfg decoded endpoint = o → FileMove c o.1 (.pair decoded endpoint) := by
      intro o ho
      have hsame : ∀ trust res, (({ c with trust } : Core), res) = o → FileMove c o.1 (.pair decoded endpoint) := by
        rintro trust res rfl
        exact .apart rfl rfl (fun _ => rfl) (fun _ hf => by cases hf)
      unfold pair at ho
      split at ho
      · exact hsame _ _ ho
      · rename_i payload
        split at ho
        · exact hsame _ _ ho
        · split at ho
          · exact hsame _ _ ho
          · split at ho
            · exact hsame _ _ ho
            · cases ho
              refine .paired payload.deviceId rfl rfl ?_ (side_setRun _ _) rfl
              exact sameBut_setRun _ _
    exact hp _ rfl
  | cancel q =>
    simp only [Core.step, Option.ite_none_right_eq_some, Option.some.injEq, Prod.mk.injEq] at h
    obtain ⟨-, rfl, rfl⟩ := h
    exact .apart rfl rfl (side_same rfl) (fun _ hf => by cases hf)
  | run q a =>
    simp only [Core.step] at h
    split at h
    · rename_i r outs hr
      cases h
      exact .apart rfl rfl (side_same (step_side (hl q) hr)) (fun _ hf => by cases hf)
    · cases h
  | forward q =>
    simp only [Core.step, forward] at h
    split at h
    · rename_i e rest hf hc
      have hhears : c.hears q = isPeerHandshake e := by
        unfold hears
        rw [hf, hc]
      split at h
      · rename_i hp
        cases h
        refine .begins q e rfl rfl (sameBut_setRun _ _) (hhears.trans hp.2) hf (side_setRun _ _)
      · rename_i hp
        cases h
        refine .apart rfl rfl (side_same rfl) fun q' hq' hh => ?_
        cases hq'
        rw [hhears] at hh
        simpa [hh] using hp
    · rename_i hf hc
      simp only [Option.ite_none_right_eq_some, Option.some.injEq, Prod.mk.injEq] at h
      obtain ⟨-, rfl, rfl⟩ := h
      refine .exits q rfl rfl (sameBut_setRun _ _) ?_ hf (side_setRun _ _)
      unfold hears
      rw [hf, hc]
    · cases h
  | load q read =>
    simp only [Core.step] at h
    split at h
    · rename_i e hf
      cases h
      exact .loads q read e rfl rfl (sameBut_setRun _ _) hf (side_setRun _ _)
    · cases h
  | write q o =>
    simp only [Core.step] at h
    split at h
    · rename_i peers e hf
      split at h
      · cases h
        exact .tears q peers e _ (fun he => by cases he) rfl (sameBut_setRun _ _) hf (side_setRun _ _)
      · cases h
        exact .tears q peers e _ (fun he => by cases he) rfl (sameBut_setRun _ _) hf (side_setRun _ _)
      · cases h
        exact .writes q peers e rfl rfl (sameBut_setRun _ _) hf (side_setRun _ _)
    · cases h
  | rename q ok =>
    simp only [Core.step] at h
    split at h
    · rename_i e hf
      cases ok with
      | false =>
        cases h
        exact .fails q e rfl rfl (sameBut_setRun _ _) hf (side_setRun _ _)
      | true =>
        rw [if_pos rfl] at h
        split at h
        · rename_i content ht
          cases h
          exact .replaces q e content ht rfl (sameBut_setRun _ _) hf (side_setRun _ _)
        · cases h
    · cases h
  | sendClipboard text =>
    simp only [Core.step, sendClipboard] at h
    split at h
    · cases h
      exact .apart rfl rfl (fun _ => rfl) (fun _ hf => by cases hf)
    · split at h
      · cases h
        exact .apart rfl rfl (side_same rfl) (fun _ hf => by cases hf)
      · cases h
        exact .apart rfl rfl (fun _ => rfl) (fun _ hf => by cases hf)

end Core

/-! ## What the file keeps -/

namespace Watched

/-- The list that is to replace the file holds what the file holds and the peer of `q`. -/
def Covers (w : Watched) (q : Nat) (peers : PersistedPeers) : Prop :=
  (∀ id ∈ w.core.onDisk, id ∈ peers.deviceIds) ∧ (w.core.runs q).peerId ∈ peers.deviceIds

structure Safe (w : Watched) : Prop where
  alone : ∀ q q', (w.core.runs q).forwarder.saves = true → (w.core.runs q').forwarder.saves = true → q = q'
  loaded : ∀ q peers e, (w.core.runs q).forwarder = .write peers e → w.Covers q peers
  staged : ∀ q e, (w.core.runs q).forwarder = .rename e →
    ∃ peers, w.core.peersTmp = some (some peers) ∧ w.Covers q peers
  due : ∀ id ∈ w.due, id ∈ w.core.onDisk ∨
    ∃ q, w.granted q = true ∧ (w.core.runs q).forwarder.busy = true ∧ (w.core.runs q).peerId = id

section
variable {cfg : Config} {w w' : Watched} {c c' : Core} {a : Moment} {k q : Nat} {os tr : List Obs}

theorem onDisk_congr (h : c'.peers = c.peers) : c'.onDisk = c.onDisk := by
  unfold Core.onDisk
  rw [h]

theorem forwarder_eq (h : c'.side k = c.side k) : (c'.runs k).forwarder = (c.runs k).forwarder :=
  congrArg Prod.fst h

theorem peerId_eq (h : c'.side k = c.side k) : (c'.runs k).peerId = (c.runs k).peerId :=
  congrArg Prod.snd h

/-- A step of `q` alone that keeps what is on disk: what has to be shown of the
others stays, what has to be shown of `q` is shown by the caller. -/
theorem Safe.local (hs : w.Safe) (hdisk : ∀ id ∈ w.core.onDisk, id ∈ w'.core.onDisk)
    (hsame : w.core.SameBut w'.core q)
    (hothers : (w.core.runs q).forwarder.saves = true ∨ (w'.core.runs q).forwarder.saves = true →
      ∀ k, k ≠ q → (w.core.runs k).forwarder.saves = false)
    (hstays : (∃ k, k ≠ q ∧ (w.core.runs k).forwarder.saves = true) →
      w'.core.onDisk = w.core.onDisk ∧ w'.core.peersTmp = w.core.peersTmp)
    (hloaded : ∀ peers e, (w'.core.runs q).forwarder = .write peers e → w'.Covers q peers)
    (hstaged : ∀ e, (w'.core.runs q).forwarder = .rename e →
      ∃ peers, w'.core.peersTmp = some (some peers) ∧ w'.Covers q peers)
    (hgranted : ∀ k, k ≠ q → w'.granted k = w.granted k)
    (hdue : ∀ id ∈ w'.due, id ∈ w.due ∨ id ∈ w'.core.onDisk ∨
      w'.granted q = true ∧ (w'.core.runs q).forwarder.busy = true ∧ (w'.core.runs q).peerId = id)
    (hdueq : w.granted q = true → (w.core.runs q).forwarder.busy = true → (w.core.runs q).peerId ∈ w'.core.onDisk ∨
      w'.granted q = true ∧ (w'.core.runs q).forwarder.busy = true ∧
        (w'.core.runs q).peerId = (w.core.runs q).peerId) : w'.Safe := by
  have hcovers : ∀ k peers, k ≠ q → (w.core.runs k).forwarder.saves = true → w.Covers k peers → w'.Covers k peers := by
    intro k peers hk hf hc
    unfold Covers
    rw [(hstays ⟨k, hk, hf⟩).1, peerId_eq (hsame k hk)]
    exact hc
  refine ⟨fun k k' hk hk' => ?_, fun k peers e hf => ?_, fun k e hf => ?_, fun id hid => ?_⟩
  · by_cases h1 : k = q
    · by_cases h2 : k' = q
      · rw [h1, h2]
      · subst h1
        rw [forwarder_eq (hsame k' h2), hothers (Or.inr hk) k' h2] at hk'
        cases hk'
    · rw [forwarder_eq (hsame k h1)] at hk
      by_cases h2 : k' = q
      · subst h2
        rw [hothers (Or.inr hk') k h1] at hk
        cases hk
      · rw [forwarder_eq (hsame k' h2)] at hk'
        exact hs.alone k k' hk hk'
  · by_cases hk : k = q
    · subst hk
      exact hloaded peers e hf
    · rw [forwarder_eq (hsame k hk)] at hf
      exact hcovers k peers hk (by rw [hf]; rfl) (hs.loaded k peers e hf)
  · by_cases hk : k = q
    · subst hk
      exact hstaged e hf
    · rw [forwarder_eq (hsame k hk)] at hf
      have hsaves : (w.core.runs k).forwarder.saves = true := by rw [hf]; rfl
      obtain ⟨peers, ht, hc⟩ := hs.staged k e hf
      rw [(hstays ⟨k, hk, hsaves⟩).2]
      exact ⟨peers, ht, hcovers k peers hk hsaves hc⟩
  · rcases hdue id hid with hid | hid | hid
    · rcases hs.due id hid with hd | ⟨k, hg, hb, hp⟩
      · exact Or.inl (hdisk id hd)
      · by_cases hkq : k = q
        · subst hkq
          rcases hdueq hg hb with hd | ⟨hg', hb', hp'⟩
          · exact Or.inl (hp ▸ hd)
          · exact Or.inr ⟨k, hg', hb', hp'.trans hp⟩
        · refine Or.inr ⟨k, ?_, ?_, ?_⟩
          · rw [hgranted k hkq]
            exact hg
          · rw [forwarder_eq (hsame k hkq)]
            exact hb
          · rw [peerId_eq (hsame k hkq)]
            exact hp
    · exact Or.inl hid
    · exact Or.inr ⟨q, hid⟩

theorem Safe.others (hs : w.Safe) (hq : (w.core.runs q).forwarder.saves = true) :
    ∀ k, k ≠ q → (w.core.runs k).forwarder.saves = false := by
  intro k hk
  by_contra h
  exact hk (hs.alone k q (by simpa using h) hq)

theorem hears_recv (h : c.hears q = true) : (c.runs q).forwarder = .recv := by
  unfold Core.hears at h
  split at h
  · rename_i hf _
    exact hf
  · cases h

/-- A step that the file does not see, with what is granted and due to a forwarder that waits. -/
theorem Safe.apart (hs : w.Safe) (hd : w'.core.peers = w.core.peers) (ht : w'.core.peersTmp = w.core.peersTmp)
    (hside : ∀ k, w'.core.side k = w.core.side k)
    (hgranted : ∀ k, k ≠ q → w'.granted k = w.granted k)
    (hq : w'.granted q = w.granted q ∨ (w.core.runs q).forwarder = .recv)
    (hdue : ∀ id ∈ w'.due, id ∈ w.due ∨ id ∈ w.core.onDisk) : w'.Safe := by
  have hdisk := onDisk_congr hd
  have hf := forwarder_eq (hside q)
  have hcovers : ∀ peers, w.Covers q peers → w'.Covers q peers := by
    intro peers hc
    unfold Covers
    rw [hdisk, peerId_eq (hside q)]
    exact hc
  apply hs.local (q := q)
  · intro id hid
    rw [hdisk]
    exact hid
  · exact fun k _ => hside k
  · rw [hf, or_self]
    exact hs.others
  · exact fun _ => ⟨hdisk, ht⟩
  · intro peers e hw
    exact hcovers peers (hs.loaded q peers e (hf ▸ hw))
  · intro e hw
    obtain ⟨peers, htmp, hc⟩ := hs.staged q e (hf ▸ hw)
    exact ⟨peers, ht.trans htmp, hcovers peers hc⟩
  · exact hgranted
  · intro id hid
    rw [hdisk]
    exact (hdue id hid).imp_right Or.inl
  · intro hg hb
    rcases hq with hq | hr
    · exact Or.inr ⟨hq.trans hg, hf ▸ hb, peerId_eq (hside q)⟩
    · rw [hr] at hb
      cases hb

theorem step_some (h : step cfg w a = some (w', os)) :
    ∃ c, w.allows a.act = true ∧ Core.step cfg w.core a.act = some (c, os) ∧ w' = w.note c a := by
  simp only [step, Option.ite_none_right_eq_some, Option.map_eq_some_iff, Prod.mk.injEq] at h
  obtain ⟨ha, ⟨c, os'⟩, hc, rfl, rfl⟩ := h
  exact ⟨c, ha, hc, rfl⟩

theorem note_core (w : Watched) (c : Core) (a : Moment) : (w.note c a).core = c := by
  unfold note
  split
  · split <;> rfl
  · rfl

/-- Nothing is noted but a handshake received. -/
theorem note_plain (hf : ∀ q, a.act = .forward q → w.core.hears q = false) :
    w.note c a = { w with core := c } := by
  unfold note
  split
  · rename_i q ha
    rw [if_neg (by simp [hf q ha])]
  · rfl

theorem note_heard (ha : a.act = .forward q) (hh : w.core.hears q = true) :
    w.note c a =
      { core := c, granted := Function.update w.granted q a.savable
        due := if a.savable then (w.core.runs q).peerId :: w.core.onDisk ++ w.due else w.due } := by
  unfold note
  rw [ha]
  exact if_pos hh

theorem mem_due {savable : Bool} {id peer : DeviceId} {disk due : List DeviceId}
    (h : id ∈ if savable then peer :: disk ++ due else due) : id ∈ due ∨ id ∈ disk ∨ savable = true ∧ id = peer := by
  cases savable with
  | false => exact Or.inl h
  | true =>
    rw [if_pos rfl, List.cons_append] at h
    rcases List.mem_cons.mp h with h | h
    · exact Or.inr (Or.inr ⟨rfl, h⟩)
    · rcases List.mem_append.mp h with h | h
      · exact Or.inr (Or.inl h)
      · exact Or.inl h

theorem Safe.step_apart (hs : w.Safe) (hc : w.Calm a) (hd : c.peers = w.core.peers)
    (ht : c.peersTmp = w.core.peersTmp) (hside : ∀ k, c.side k = w.core.side k)
    (hheard : ∀ q, a.act = .forward q → w.core.hears q = true → (w.core.runs q).persisted = true) :
    (w.note c a).Safe := by
  by_cases hf : ∃ q, a.act = .forward q ∧ w.core.hears q = true
  · obtain ⟨q, ha, hh⟩ := hf
    have hsaved : a.savable = true → (w.core.runs q).peerId ∈ w.core.onDisk := by
      intro hsav
      unfold Calm at hc
      rw [ha] at hc
      exact hc hh hsav (hheard q ha hh)
    rw [note_heard ha hh]
    refine hs.apart (q := q) hd ht hside (fun k hk => Function.update_of_ne hk ..) (Or.inr (hears_recv hh))
      fun id hid => ?_
    rcases mem_due hid with hid | hid | ⟨hsav, rfl⟩
    · exact Or.inl hid
    · exact Or.inr hid
    · exact Or.inr (hsaved hsav)
  · have hplain : w.note c a = { w with core := c } := by
      refine note_plain fun q ha => ?_
      by_contra hh
      exact hf ⟨q, ha, by simpa using hh⟩
    rw [hplain]
    exact hs.apart (q := 0) hd ht hside (fun _ _ => rfl) (Or.inl rfl) fun _ => Or.inl

/-- The forwarder of `q` goes from one step of a save to the next, or leaves it, with the file as it was. -/
theorem Safe.plain {f : Forwarder} (hs : w.Safe) (hd : c.peers = w.core.peers) (hsame : w.core.SameBut c q)
    (hq : c.side q = (f, (w.core.runs q).peerId))
    (hothers : f.saves = true → ∀ k, k ≠ q → (w.core.runs k).forwarder.saves = false)
    (htmp : (∃ k, k ≠ q ∧ (w.core.runs k).forwarder.saves = true) → c.peersTmp = w.core.peersTmp)
    (hloaded : ∀ peers e, f = .write peers e → w.Covers q peers)
    (hstaged : ∀ e, f = .rename e → ∃ peers, c.peersTmp = some (some peers) ∧ w.Covers q peers)
    (hdone : f.busy = false → w.granted q = true → (w.core.runs q).forwarder.busy = false) :
    ({ w with core := c } : Watched).Safe := by
  have hdisk : c.onDisk = w.core.onDisk := onDisk_congr hd
  have hf : (c.runs q).forwarder = f := congrArg Prod.fst hq
  have hid : (c.runs q).peerId = (w.core.runs q).peerId := congrArg Prod.snd hq
  have hcovers : ∀ peers, w.Covers q peers → ({ w with core := c } : Watched).Covers q peers := by
    intro peers hc
    unfold Covers
    rw [hdisk, hid]
    exact hc
  apply hs.local (q := q)
  · intro id h
    rw [hdisk]
    exact h
  · exact hsame
  · rintro (h | h)
    · exact hs.others h
    · exact hothers (hf ▸ h)
  · exact fun h => ⟨hdisk, htmp h⟩
  · intro peers e hw
    exact hcovers peers (hloaded peers e (hf ▸ hw))
  · intro e hw
    obtain ⟨peers, ht, hc⟩ := hstaged e (hf ▸ hw)
    exact ⟨peers, ht, hcovers peers hc⟩
  · exact fun _ _ => rfl
  · exact fun _ => Or.inl
  · intro hg hb
    refine Or.inr ⟨hg, ?_, hid⟩
    rw [hf]
    by_contra h
    rw [hdone (by simpa using h) hg] at hb
    cases hb

theorem Safe.begins {e : DialerEvent} (hs : w.Safe) (hd : c.peers = w.core.peers)
    (ht : c.peersTmp = w.core.peersTmp) (hsame : w.core.SameBut c q) (hr : (w.core.runs q).forwarder = .recv)
    (hq : c.side q = (.load e, (w.core.runs q).peerId)) (savable : Bool) :
    ({ core := c, granted := Function.update w.granted q savable
       due := if savable then (w.core.runs q).peerId :: w.core.onDisk ++ w.due else w.due } : Watched).Safe := by
  have hdisk : c.onDisk = w.core.onDisk := onDisk_congr hd
  have hf : (c.runs q).forwarder = .load e := congrArg Prod.fst hq
  have hid : (c.runs q).peerId = (w.core.runs q).peerId := congrArg Prod.snd hq
  apply hs.local (q := q)
  · intro id h
    rw [hdisk]
    exact h
  · exact hsame
  · rw [hr, hf]
    rintro (h | h) <;> cases h
  · exact fun _ => ⟨hdisk, ht⟩
  · intro peers e' hw
    rw [hf] at hw
    cases hw
  · intro e' hw
    rw [hf] at hw
    cases hw
  · exact fun k hk => Function.update_of_ne hk ..
  · intro id h
    rcases mem_due h with h | h | ⟨hsav, rfl⟩
    · exact Or.inl h
    · rw [hdisk]
      exact Or.inr (Or.inl h)
    · exact Or.inr (Or.inr ⟨(Function.update_self ..).trans hsav, by rw [hf]; rfl, hid⟩)
  · intro _ hb
    rw [hr] at hb
    cases hb

theorem Safe.paired {id : DeviceId} (hs : w.Safe) (hst : w.core.Started) (hd : c.peers = w.core.peers)
    (ht : c.peersTmp = w.core.peersTmp) (hsame : w.core.SameBut c w.core.started)
    (hq : c.side w.core.started = (.recv, id)) : ({ w with core := c } : Watched).Safe := by
  have hidle := hst.idle w.core.started (Nat.le_refl _)
  have hdisk : c.onDisk = w.core.onDisk := onDisk_congr hd
  have hf : (c.runs w.core.started).forwarder = .recv := congrArg Prod.fst hq
  apply hs.local (q := w.core.started)
  · intro id h
    rw [hdisk]
    exact h
  · exact hsame
  · rw [hidle, hf]
    rintro (h | h) <;> cases h
  · exact fun _ => ⟨hdisk, ht⟩
  · intro peers e hw
    rw [hf] at hw
    cases hw
  · intro e hw
    rw [hf] at hw
    cases hw
  · exact fun _ _ => rfl
  · exact fun _ => Or.inl
  · intro _ hb
    rw [hidle] at hb
    cases hb

theorem Safe.replaces {e : DialerEvent} {content : Option PersistedPeers} (hs : w.Safe)
    (ht : w.core.peersTmp = some content) (hd : c.peers = some content) (hsame : w.core.SameBut c q)
    (hf : (w.core.runs q).forwarder = .rename e)
    (hq : c.side q = (.recv, (w.core.runs q).peerId)) :
    ({ w with core := c } : Watched).Safe ∧
      ∀ id ∈ w.core.onDisk, id ∈ c.onDisk := by
  obtain ⟨peers, htmp, hdisk, hpeer⟩ := hs.staged q e hf
  have hsaves : (w.core.runs q).forwarder.saves = true := by rw [hf]; rfl
  have hcontent : c.onDisk = peers.deviceIds := by
    rw [ht] at htmp
    cases htmp
    unfold Core.onDisk
    rw [hd]
    rfl
  rw [← hcontent] at hdisk hpeer
  have hf' : (c.runs q).forwarder = .recv := congrArg Prod.fst hq
  have hid : (c.runs q).peerId = (w.core.runs q).peerId := congrArg Prod.snd hq
  refine ⟨?_, hdisk⟩
  apply hs.local (q := q)
  · exact hdisk
  · exact hsame
  · exact fun _ => hs.others hsaves
  · rintro ⟨k, hk, h⟩
    rw [hs.others hsaves k hk] at h
    cases h
  · intro peers e' hw
    rw [hf'] at hw
    cases hw
  · intro e' hw
    rw [hf'] at hw
    cases hw
  · exact fun _ _ => rfl
  · exact fun _ => Or.inl
  · exact fun _ _ => Or.inl hpeer

/-- A step that meets the condition keeps what the file owes and takes no peer out of it. -/
theorem Safe.step (hs : w.Safe) (hst : w.core.Started) (hl : ∀ k, (w.core.runs k).dialer.receiverDropped = false)
    (hc : w.Calm a) (h : Watched.step cfg w a = some (w', os)) :
    w'.Safe ∧ ∀ id ∈ w.core.onDisk, id ∈ w'.core.onDisk := by
  obtain ⟨c, hallow, hstep, rfl⟩ := step_some h
  rw [note_core]
  have hkeep : c.peers = w.core.peers → ∀ id ∈ w.core.onDisk, id ∈ c.onDisk := by
    intro hd id hid
    rw [onDisk_congr hd]
    exact hid
  generalize hact : a.act = act at hstep
  cases Core.step_fileMove hl hstep with
  | apart hd ht hside hheard =>
    exact ⟨hs.step_apart hc hd ht hside fun q hq => hheard q (hact ▸ hq), hkeep hd⟩
  | paired id hd ht hsame hq _ =>
    rw [note_plain (by simp [hact])]
    exact ⟨hs.paired hst hd ht hsame hq, hkeep hd⟩
  | begins q e hd ht hsame hh hr hq =>
    rw [note_heard hact hh]
    exact ⟨hs.begins hd ht hsame hr hq a.savable, hkeep hd⟩
  | exits q hd ht hsame hh hr hq =>
    have hforward : ∀ k, a.act = .forward k → w.core.hears k = false := by
      intro k hk
      rw [hact] at hk
      cases hk
      exact hh
    rw [note_plain hforward]
    exact ⟨hs.plain hd hsame hq nofun (fun _ => ht) nofun nofun (fun _ _ => by rw [hr]; rfl), hkeep hd⟩
  | loads q read e hd ht hsame hf hq =>
    unfold Calm at hc
    rw [hact] at hc
    obtain ⟨hread, hothers⟩ := hc
    have hothers : ∀ k, k ≠ q → (w.core.runs k).forwarder.saves = false := by
      intro k hk
      by_cases hlt : k < w.core.started
      · exact hothers k hlt hk
      · rw [hst.idle k (Nat.le_of_not_lt hlt)]
        rfl
    rw [note_plain (by simp [hact])]
    refine ⟨hs.plain hd hsame hq (fun _ => hothers) (fun _ => ht) ?_ nofun nofun, hkeep hd⟩
    intro peers e' he
    cases he
    refine ⟨fun id hid => ?_, PersistedPeers.mem_upsert_self⟩
    rcases hread with rfl | hown
    · exact PersistedPeers.mem_upsert_of_mem hid
    · rw [hown id hid]
      exact PersistedPeers.mem_upsert_self
  | writes q peers e hd ht hsame hf hq =>
    have hsaves : (w.core.runs q).forwarder.saves = true := by rw [hf]; rfl
    rw [note_plain (by simp [hact])]
    refine ⟨hs.plain hd hsame hq (fun _ => hs.others hsaves) ?_ nofun ?_ nofun, hkeep hd⟩
    · rintro ⟨k, hk, h⟩
      rw [hs.others hsaves k hk] at h
      cases h
    · exact fun _ _ => ⟨peers, ht, hs.loaded q peers e hf⟩
  | tears q peers e o ho hd hsame hf hq =>
    have hsaves : (w.core.runs q).forwarder.saves = true := by rw [hf]; rfl
    rw [note_plain (by simp [hact])]
    refine ⟨hs.plain hd hsame hq nofun ?_ nofun nofun ?_, hkeep hd⟩
    · rintro ⟨k, hk, h⟩
      rw [hs.others hsaves k hk] at h
      cases h
    · intro _ hg
      simp [allows, hact, hg, ho] at hallow
  | replaces q e content ht hd hsame hf hq =>
    rw [note_plain (by simp [hact])]
    exact hs.replaces ht hd hsame hf hq
  | fails q e hd ht hsame hf hq =>
    obtain ⟨peers, htmp, -⟩ := hs.staged q e hf
    rw [note_plain (by simp [hact])]
    refine ⟨hs.plain hd hsame hq nofun (fun _ => ht) nofun nofun ?_, hkeep hd⟩
    intro _ hg
    simp [allows, hact, hg, htmp] at hallow

theorem safe_new (peers peersTmp : PeersFile) : (new peers peersTmp).Safe where
  alone := by
    intro q q' h
    cases h
  loaded := by
    intro q peers e h
    cases h
  staged := by
    intro q e h
    cases h
  due := by
    intro id h
    cases h

theorem run_core {C : List Obs → Watched → Moment → Prop} (h : Run (system cfg) C tr w) :
    Run (Core.system cfg) always tr w.core := by
  induction h with
  | init h0 =>
    obtain ⟨peers, tmp, rfl⟩ := h0
    exact .init ⟨peers, tmp, rfl⟩
  | step _ _ hstep ih =>
    obtain ⟨c, -, hc, rfl⟩ := step_some hstep
    rw [note_core]
    exact .step ih trivial hc

theorem run_safe (h : Run (system cfg) (fun _ w a => w.Calm a) tr w) : w.Safe := by
  induction h with
  | init h0 =>
    obtain ⟨peers, tmp, rfl⟩ := h0
    exact safe_new peers tmp
  | step hr hc hstep ih =>
    have hcore := run_core hr
    exact (ih.step (Core.run_started hcore) (fun k => (Core.run_sound hcore k).listening) hc hstep).1

/-- While loads read what is there with nobody else saving, and no forwarder is
past a failed attempt, the file keeps all it owes and no write takes a peer out of it. -/
theorem run_peers_kept (h : Run (system cfg) (fun _ w a => w.Calm a) tr w) :
    w.Kept ∧ ∀ a w' os, w.Calm a → step cfg w a = some (w', os) → ∀ id ∈ w.core.onDisk, id ∈ w'.core.onDisk := by
  have hs := run_safe h
  have hcore := run_core h
  constructor
  · intro hq id hid
    rcases hs.due id hid with hd | ⟨q, -, hb, -⟩
    · exact hd
    · rw [hq q] at hb
      cases hb
  · intro a w' os hc hstep
    exact (hs.step (Core.run_started hcore) (fun k => (Core.run_sound hcore k).listening) hc hstep).2

end

/-! ## Two desks -/

/-- A check that implies `Calm`. -/
def calm (w : Watched) (a : Moment) : Bool :=
  match a.act with
  | .load q read => (read || w.core.onDisk.all (· = (w.core.runs q).peerId)) &&
      (List.range w.core.started).all fun k => k = q || !(w.core.runs k).forwarder.saves
  | .forward q => !(w.core.hears q && a.savable && (w.core.runs q).persisted) ||
      w.core.onDisk.contains (w.core.runs q).peerId
  | _ => true

theorem calm_sound {w : Watched} {a : Moment} (h : calm w a = true) : w.Calm a := by
  unfold calm at h
  unfold Calm
  split at h
  · simp only [Bool.and_eq_true, Bool.or_eq_true, List.all_eq_true, decide_eq_true_eq, List.mem_range,
      Bool.not_eq_true'] at h
    exact ⟨h.1, fun k hk hne => (h.2 k hk).resolve_left hne⟩
  · intro hh hs hp
    simpa [hh, hs, hp] using h
  · trivial

def attic : QrPayload := { desk with deviceId := Bytes.fill 32 3, name := "attic" }

/-- Run `q` dials and shakes hands with `payload`'s device, and its forwarder
receives the handshake while saving works. -/
def greeted (q : Nat) (payload : QrPayload) : List Moment :=
  [⟨.run q (.dial true), true⟩, ⟨.run q (.connect true), true⟩, ⟨.run q (.openBi true), true⟩,
    ⟨.run q (.drive 0 (.start true)), true⟩,
    ⟨.run q (.drive 0 (.receive (encode (.handshake { hello with deviceId := payload.deviceId })) 0 0 true)), true⟩,
    ⟨.run q .drain, true⟩, ⟨.forward q, true⟩, ⟨.forward q, true⟩]

def stores (q : Nat) : List Moment := [⟨.write q .whole, true⟩, ⟨.rename q true, true⟩]

def twoDesks : List Moment := [⟨.pair (.ok desk) (.ok ()), true⟩, ⟨.pair (.ok attic) (.ok ()), true⟩]

/-- The second handshake is persisted after the first. -/
def inTurn : List Moment :=
  twoDesks ++ greeted 0 desk ++ greeted 1 attic ++ ⟨.load 0 true, true⟩ :: stores 0 ++ ⟨.load 1 true, true⟩ :: stores 1

theorem Quiescent.of_started {w : Watched} (hst : w.core.Started)
    (h : ∀ q < w.core.started, (w.core.runs q).forwarder.busy = false) : w.Quiescent := by
  intro q
  by_cases hq : q < w.core.started
  · exact h q hq
  · rw [hst.idle q (Nat.le_of_not_lt hq)]
    rfl

theorem inTurn_enabled : (exec (system phone) (fun _ => calm) [] (new none none) inTurn).isSome = true := by
  decide +kernel

theorem run_peers_kept_inTurn :
    let r := (exec (system phone) (fun _ => calm) [] (new none none) inTurn).get inTurn_enabled
    r.2.due = [attic.deviceId, desk.deviceId] ∧ ∀ id ∈ r.2.due, id ∈ r.2.core.onDisk := by
  have h0 : (system phone).init (new none none) := ⟨none, none, rfl⟩
  have hr := run_of_exec (fun _ _ _ h => calm_sound h) h0 inTurn_enabled
  refine ⟨by decide +kernel, (run_peers_kept hr).1 ?_⟩
  exact Quiescent.of_started (Core.run_started (run_core hr)) (by decide +kernel)

/-- Both forwarders read the file before either has replaced it. -/
def atOnce : List Moment :=
  twoDesks ++ greeted 0 desk ++ greeted 1 attic ++
    ⟨.load 0 true, true⟩ :: ⟨.load 1 true, true⟩ :: stores 0 ++ stores 1

theorem atOnce_enabled : (exec (system phone) anyway [] (new none none) atOnce).isSome = true := by
  decide +kernel

/-- The later of two saves drops the peer of the earlier one. -/
theorem atOnce_loses : ∃ tr w, Run (system phone) always tr w ∧ w.Quiescent ∧
    desk.deviceId ∈ w.due ∧ desk.deviceId ∉ w.core.onDisk := by
  have h0 : (system phone).init (new none none) := ⟨none, none, rfl⟩
  have hr := run_of_anyway h0 atOnce_enabled
  refine ⟨_, _, hr, ?_, by decide +kernel, by decide +kernel⟩
  exact Quiescent.of_started (Core.run_started (run_core hr)) (by decide +kernel)

end Watched

end Ffi

end PenguinSync
