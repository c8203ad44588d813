import PenguinSync.Daemon.Calls
import PenguinSync.Store.Devices

/-!
# Three books of the paired devices

The trust store says who may connect, the device list who is remembered and the
exported objects who is shown. Each has its lock, so they differ while a device
is being paired or unpaired, and until the loop at start-up has exported it.
Where no call unpairs a device while it is being paired, or removes an object
that is still to come, they agree on all the others, and a restart finds what
was there.
-/

namespace PenguinSync

open Lts

namespace Daemon

def listed (s : Daemon) (d : DeviceId) : Option String :=
  (Keyed.lookup PersistedDevice.deviceId (toHex d) s.state.devices).map PersistedDevice.name

def shown (s : Daemon) (d : DeviceId) : Option String := (s.objects.lookup d).map Device1.name

/-- The name its object shows, or will show once it is exported. -/
def due (s : Daemon) (d : DeviceId) : Option String :=
  (s.shown d).or ((Keyed.lookup PersistedDevice.deviceId (toHex d) s.restoring).map PersistedDevice.name)

/-- The device is paired or known to be, and its entry and object are being seen to. -/
def HandshakePc.installs : HandshakePc → Bool
  | .closeWindow | .upsert | .persist | .ensureObject | .createObject => true
  | _ => false

def Orchestrator.installs (d : DeviceId) : Orchestrator → Bool
  | .handshake h pc => HandshakePc.installs pc && h.deviceId = d
  | _ => false

/-- No call unpairs a device that is being installed or removes an object that is
still to come, and none is installed that a call has begun to unpair. -/
def disjoint (s : Daemon) : Act → Bool
  | .unpairStep k _ =>
    match s.unpairs[k]? with
    | some u => Orchestrator.installs u.id s.orchestrator = false ∧ (u.pc = .removeObject → ¬ s.Awaits u.id)
    | none => true
  | .orchestrate .. =>
    match s.orchestrator with
    | .handshake h .pin => ∀ u ∈ s.unpairs, u.id = h.deviceId → u.pc = .unpin
    | _ => true
  | _ => true

/-- What there is of a device whose handshake stands at `pc`. -/
def Installing (s : Daemon) (h : Handling) : HandshakePc → Prop
  | .redeem _ | .pairingRequested | .awaitConfirmation | .awaiting .. | .pin => h.deviceId ∉ s.trust.paired
  | .closeWindow | .upsert => h.deviceId ∈ s.trust.paired ∧ s.listed h.deviceId = none ∧ s.due h.deviceId = none
  | .persist =>
    h.deviceId ∈ s.trust.paired ∧ s.listed h.deviceId = some h.name ∧ s.due h.deviceId = none
  | .ensureObject | .createObject =>
    h.deviceId ∈ s.trust.paired ∧ (s.listed h.deviceId).isSome = true ∧
      (s.due h.deviceId = s.listed h.deviceId ∨ s.listed h.deviceId = some h.name ∧ s.due h.deviceId = none)
  | .isPaired | .setConnected | .promote => True

structure BooksInv (s : Daemon) : Prop where
  list : s.state.Refines s.listed
  spelled : ∀ d o, s.objects.lookup d = some o → o.deviceId = toHex d
  encoded : ∀ e ∈ s.restoring, ∃ d, e.deviceId = toHex d
  paired : ∀ d ∈ s.trust.paired, Orchestrator.installs d s.orchestrator = false →
    (s.listed d).isSome = true ∧ s.due d = s.listed d
  unlisted : ∀ d ∉ s.trust.paired, s.listed d ≠ none → ∃ u ∈ s.unpairs, u.id = d ∧ u.pc = .remove
  unshown : ∀ d ∉ s.trust.paired, s.due d ≠ none → ∃ u ∈ s.unpairs, u.id = d ∧ u.pc ≠ .unpin
  leaving : ∀ u ∈ s.unpairs, u.pc ≠ .unpin → u.id ∉ s.trust.paired
  installing : ∀ h pc, s.orchestrator = .handshake h pc → s.Installing h pc

section
variable {cfg : Config} {s s' : Daemon} {a : Act} {os : List Obs} {d : DeviceId}

/-! ## The list and the objects after one change -/

theorem listed_of_refines {m : DeviceId → Option String} (h : s.state.Refines m) : s.listed = m := funext h.names

theorem listed_upsert (h : s.state.Refines s.listed) {id : DeviceId} {name : String} (s' : Daemon)
    (hs : s'.state = s.state.upsert id name) :
    s'.state.Refines s'.listed ∧ s'.listed = Function.update s.listed id (some name) := by
  have hr := h.upsert id name
  rw [← hs] at hr
  have he := listed_of_refines hr
  exact ⟨he ▸ hr, he⟩

theorem listed_remove (h : s.state.Refines s.listed) {id : DeviceId} (s' : Daemon)
    (hs : s'.state = s.state.remove id) :
    s'.state.Refines s'.listed ∧ s'.listed = Function.update s.listed id none := by
  have hr := h.remove id
  rw [← hs] at hr
  have he := listed_of_refines hr
  exact ⟨he ▸ hr, he⟩

theorem listed_same (hs : s'.state = s.state) : s'.listed = s.listed := by
  unfold listed
  rw [hs]

theorem shown_setConnected (objects : HashMap DeviceId Device1) (id : DeviceId) (connected : Bool) (d : DeviceId) :
    ((setConnected objects id connected).lookup d).map Device1.name = (objects.lookup d).map Device1.name := by
  unfold setConnected
  cases h : objects.lookup id with
  | none => rfl
  | some o =>
    by_cases hd : d = id
    · subst hd
      rw [Finmap.lookup_insert, h]
      rfl
    · rw [Finmap.lookup_insert_of_ne _ hd]

theorem spelled_setConnected {objects : HashMap DeviceId Device1} (id : DeviceId) (connected : Bool)
    (h : ∀ d o, objects.lookup d = some o → o.deviceId = toHex d) {d : DeviceId} {o : Device1}
    (hx : (setConnected objects id connected).lookup d = some o) : o.deviceId = toHex d := by
  rcases lookup_setConnected.mp hx with ⟨rfl, o', ho', rfl⟩ | ⟨-, hx⟩
  · exact h _ o' ho'
  · exact h d o hx

theorem due_congr (hs : s'.shown d = s.shown d) (hr : s'.restoring = s.restoring) : s'.due d = s.due d := by
  unfold due
  rw [hs, hr]

/-- What is not to come is shown already. -/
theorem due_eq_shown (hw : ¬ s.Awaits d) : s.due d = s.shown d := by
  unfold due
  cases hl : Keyed.lookup PersistedDevice.deviceId (toHex d) s.restoring with
  | none => exact Option.or_none
  | some e =>
    refine absurd ⟨e, Keyed.mem_of_lookup _ hl, ?_⟩ hw
    rw [Keyed.key_of_lookup _ hl]
    exact fromHex_toHex d

theorem not_awaits (hr : s.restoring = []) : ¬ s.Awaits d := fun hw => hw.restoring hr

/-! ## Steps that leave the books alone -/

theorem installing_congr (ht : s'.trust.paired = s.trust.paired) (hl : s'.listed = s.listed)
    (hs : ∀ d, s'.due d = s.due d) (h : Handling) (pc : HandshakePc) :
    s'.Installing h pc ↔ s.Installing h pc := by
  cases pc <;> simp only [Installing, ht, hl, hs]

/-- The books are as they were, no call has got on, and where the orchestrator stands is accounted for. -/
theorem BooksInv.same (hi : BooksInv s) (ht : s'.trust.paired = s.trust.paired) (hst : s'.state = s.state)
    (hsh : ∀ d, s'.due d = s.due d) (hsp : ∀ d o, s'.objects.lookup d = some o → o.deviceId = toHex d)
    (hre : ∀ e ∈ s'.restoring, e ∈ s.restoring)
    (hu : ∀ u ∈ s.unpairs, u ∈ s'.unpairs) (hu' : ∀ u ∈ s'.unpairs, u ∈ s.unpairs ∨ u.pc = .unpin)
    (hin : ∀ d ∈ s.trust.paired, Orchestrator.installs d s'.orchestrator = false →
      Orchestrator.installs d s.orchestrator = false ∨ (s.listed d).isSome = true ∧ s.due d = s.listed d)
    (ho : ∀ h pc, s'.orchestrator = .handshake h pc → s.Installing h pc) : BooksInv s' where
  list := by
    rw [hst, listed_same hst]
    exact hi.list
  spelled := hsp
  encoded e he := hi.encoded e (hre e he)
  paired d hp hx := by
    rw [ht] at hp
    rw [listed_same hst, hsh]
    rcases hin d hp hx with hx | hb
    · exact hi.paired d hp hx
    · exact hb
  unlisted d hp hx := by
    rw [ht] at hp
    rw [listed_same hst] at hx
    obtain ⟨u, hm, hd⟩ := hi.unlisted d hp hx
    exact ⟨u, hu u hm, hd⟩
  unshown d hp hx := by
    rw [ht] at hp
    rw [hsh] at hx
    obtain ⟨u, hm, hd⟩ := hi.unshown d hp hx
    exact ⟨u, hu u hm, hd⟩
  leaving u hm hpc := by
    rw [ht]
    exact hi.leaving u ((hu' u hm).resolve_right hpc) hpc
  installing h pc hx := (installing_congr ht (listed_same hst) hsh h pc).mpr (ho h pc hx)

/-- The books and the calls stay, and so does what the orchestrator installs. -/
theorem BooksInv.moved {o : Orchestrator} (hi : BooksInv s) (ht : s'.trust.paired = s.trust.paired)
    (hst : s'.state = s.state) (hob : s'.objects = s.objects) (hre : s'.restoring = s.restoring)
    (hu : s'.unpairs = s.unpairs) (hor : s'.orchestrator = o)
    (hin : ∀ d, Orchestrator.installs d o = false → Orchestrator.installs d s.orchestrator = false ∨
      (s.listed d).isSome = true ∧ s.due d = s.listed d)
    (ho : ∀ h pc, o = .handshake h pc → s.Installing h pc) : BooksInv s' := by
  subst hor
  refine hi.same ht hst (fun d => due_congr (by unfold shown; rw [hob]) hre) (by rw [hob]; exact hi.spelled)
    (by rw [hre]; exact fun _ he => he) (by rw [hu]; exact fun _ hm => hm) (by rw [hu]; exact fun _ hm => Or.inl hm)
    (fun d _ hx => hin d hx) ho

theorem BooksInv.untouched (hi : BooksInv s) (ht : s'.trust.paired = s.trust.paired) (hst : s'.state = s.state)
    (hob : s'.objects = s.objects) (hre : s'.restoring = s.restoring) (hu : s'.unpairs = s.unpairs)
    (ho : s'.orchestrator = s.orchestrator) : BooksInv s' :=
  hi.moved ht hst hob hre hu ho (fun _ hx => Or.inl hx) hi.installing

/-! ## The start -/

theorem due_restore (hi : BooksInv s) (h : s.restore = some (s', os)) (d : DeviceId) : s'.due d = s.due d := by
  obtain ⟨hm, -⟩ := restore_move h
  cases hm with
  | skips e rest hr hskip =>
    obtain ⟨id, hid⟩ := hi.encoded e (by rw [hr]; exact List.mem_cons_self ..)
    unfold due
    rw [hr]
    by_cases hd : d = id
    · subst hd
      have hx : s.objects.lookup d ≠ none := hskip d (by rw [hid, fromHex_toHex])
      obtain ⟨o, ho⟩ := Option.ne_none_iff_exists'.mp hx
      have hsome : s.shown d = some o.name := by
        unfold shown
        rw [ho]
        rfl
      rw [hsome]
      show (s.shown d).or _ = _
      rw [hsome]
      rfl
    · rw [Keyed.lookup_cons_ne _ fun he => hd (toHex_injective (he.symm.trans hid))]
      rfl
  | exports e rest id hr he hx =>
    obtain ⟨id', hid⟩ := hi.encoded e (by rw [hr]; exact List.mem_cons_self ..)
    obtain rfl : id' = id := by
      rw [hid, fromHex_toHex] at he
      exact Option.some.inj he
    unfold due shown
    rw [hr]
    by_cases hd : d = id'
    · subst hd
      rw [Finmap.lookup_insert, hx, Keyed.lookup_cons_self _ hid]
      rfl
    · rw [Finmap.lookup_insert_of_ne _ hd, Keyed.lookup_cons_ne _ fun he => hd (toHex_injective (he.symm.trans hid))]

theorem BooksInv.restore (hi : BooksInv s) (h : s.restore = some (s', os)) : BooksInv s' := by
  have hdue := due_restore hi h
  obtain ⟨hm, -⟩ := restore_move h
  cases hm with
  | skips e rest hr _ =>
    exact hi.same rfl rfl hdue hi.spelled (fun e' he => by rw [hr]; exact List.mem_cons_of_mem _ he) (fun _ hm => hm)
      (fun _ hm => Or.inl hm) (fun _ _ hx => Or.inl hx) hi.installing
  | exports e rest id hr he hx =>
    obtain ⟨id', hid⟩ := hi.encoded e (by rw [hr]; exact List.mem_cons_self ..)
    rw [hid, fromHex_toHex, Option.some.injEq] at he
    refine hi.same rfl rfl hdue (fun d o ho => ?_) (fun e' he => by rw [hr]; exact List.mem_cons_of_mem _ he)
      (fun _ hm => hm) (fun _ hm => Or.inl hm) (fun _ _ hx => Or.inl hx) hi.installing
    rcases HashMap.lookup_insert_some.mp ho with ⟨rfl, rfl⟩ | ⟨-, ho⟩
    · rw [← he]
      exact hid
    · exact hi.spelled d o ho

/-! ## An unpairing -/

theorem mem_set_of_ne {α : Type} {l : List α} {k : Nat} {x y z : α} (hk : l[k]? = some x) (hz : z ∈ l) (hne : z ≠ x) :
    z ∈ l.set k y := by
  obtain ⟨j, hj⟩ := List.mem_iff_getElem?.mp hz
  have hkj : k ≠ j := by
    rintro rfl
    rw [hk, Option.some.injEq] at hj
    exact hne hj.symm
  exact List.mem_of_getElem? ((List.getElem?_set_ne hkj).trans hj)

theorem mem_eraseIdx_of_ne {α : Type} {l : List α} {k : Nat} {x z : α} (hk : l[k]? = some x) (hz : z ∈ l)
    (hne : z ≠ x) : z ∈ l.eraseIdx k := by
  rw [List.mem_eraseIdx_iff_getElem?]
  obtain ⟨j, hj⟩ := List.mem_iff_getElem?.mp hz
  refine ⟨j, ?_, hj⟩
  rintro rfl
  rw [hk, Option.some.injEq] at hj
  exact hne hj.symm

theorem mem_set_self {α : Type} {l : List α} {k : Nat} {x y : α} (hk : l[k]? = some x) : y ∈ l.set k y :=
  List.mem_of_getElem? (List.getElem?_set_self (get_lt hk))

/-- The handshakes at hand are of other devices than one that is not being installed. -/
theorem Installing.other {h : Handling} {pc : HandshakePc} (hi : s.Installing h pc)
    (hn : HandshakePc.installs pc = true → h.deviceId ≠ d)
    (hp : ∀ x ≠ d, x ∈ s'.trust.paired ↔ x ∈ s.trust.paired) (hsub : s'.trust.paired ⊆ s.trust.paired)
    (hl : ∀ x ≠ d, s'.listed x = s.listed x) (hs : ∀ x ≠ d, s'.due x = s.due x) : s'.Installing h pc := by
  cases pc with
  | isPaired | setConnected | promote => trivial
  | redeem _ | pairingRequested | awaitConfirmation | awaiting _ _ _ | pin => exact fun hm => hi (hsub hm)
  | closeWindow | upsert | persist | ensureObject | createObject =>
    have hd := hn rfl
    simp only [Installing] at hi ⊢
    rwa [hp _ hd, hl _ hd, hs _ hd]

theorem installs_ne {id : DeviceId} {h : Handling} {pc : HandshakePc}
    (hins : Orchestrator.installs id s.orchestrator = false) (ho : s.orchestrator = .handshake h pc)
    (hpc : HandshakePc.installs pc = true) : h.deviceId ≠ id := by
  intro hid
  rw [ho] at hins
  simp [Orchestrator.installs, hpc, hid] at hins

section
variable {k call : Nat} {id : DeviceId}

theorem BooksInv.unpin (hi : BooksInv s) (hk : s.unpairs[k]? = some ⟨call, id, .unpin⟩)
    (hins : Orchestrator.installs id s.orchestrator = false) :
    BooksInv { s with trust := s.trust.unpair id, unpairs := s.unpairs.set k ⟨call, id, .remove⟩ } := by
  have hpaired : ∀ {x}, x ∈ s.trust.paired.erase id ↔ x ≠ id ∧ x ∈ s.trust.paired := Finset.mem_erase
  exact
    { list := hi.list
      spelled := hi.spelled
      encoded := hi.encoded
      paired := fun d hp hx => hi.paired d (hpaired.mp hp).2 hx
      unlisted := fun d hp hx => by
        by_cases hd : d = id
        · exact ⟨⟨call, id, .remove⟩, mem_set_self hk, hd.symm, rfl⟩
        · obtain ⟨u, hm, hu, hpc⟩ := hi.unlisted d (fun hm => hp (hpaired.mpr ⟨hd, hm⟩)) hx
          exact ⟨u, mem_set_of_ne hk hm (by rintro rfl; cases hpc), hu, hpc⟩
      unshown := fun d hp hx => by
        by_cases hd : d = id
        · exact ⟨⟨call, id, .remove⟩, mem_set_self hk, hd.symm, by simp⟩
        · obtain ⟨u, hm, hu, hpc⟩ := hi.unshown d (fun hm => hp (hpaired.mpr ⟨hd, hm⟩)) hx
          exact ⟨u, mem_set_of_ne hk hm (by rintro rfl; exact hpc rfl), hu, hpc⟩
      leaving := fun u hm hpc hp => by
        obtain ⟨hid, hp⟩ := hpaired.mp hp
        rcases List.mem_or_eq_of_mem_set hm with hm | rfl
        · exact hi.leaving u hm hpc hp
        · exact hid rfl
      installing := fun h pc hx => (hi.installing h pc hx).other (installs_ne hins hx)
        (fun x hd => by simp [TrustStore.unpair, hd]) (Finset.erase_subset _ _) (fun _ _ => rfl) fun _ _ => rfl }

theorem BooksInv.unpairing {pc : UnpairPc} {d : DeviceId} (hi : BooksInv s) (hk : s.unpairs[k]? = some ⟨call, id, pc⟩)
    {pc' : UnpairPc} (hpc : pc' ≠ .unpin) (hp : d ∉ s.trust.paired) (hx : s.due d ≠ none) :
    ∃ u ∈ s.unpairs.set k ⟨call, id, pc'⟩, u.id = d ∧ u.pc ≠ .unpin := by
  by_cases hd : d = id
  · exact ⟨⟨call, id, pc'⟩, mem_set_self hk, hd.symm, hpc⟩
  · obtain ⟨u, hm, hu, hpc⟩ := hi.unshown d hp hx
    exact ⟨u, mem_set_of_ne hk hm (by rintro rfl; exact hd hu.symm), hu, hpc⟩

theorem BooksInv.left {pc pc' : UnpairPc} (hi : BooksInv s) (hk : s.unpairs[k]? = some ⟨call, id, pc⟩)
    (hpc : pc ≠ .unpin) : ∀ u ∈ s.unpairs.set k ⟨call, id, pc'⟩, u.pc ≠ .unpin → u.id ∉ s.trust.paired := by
  intro u hm hu
  rcases List.mem_or_eq_of_mem_set hm with hm | rfl
  · exact hi.leaving u hm hu
  · exact hi.leaving ⟨call, id, pc⟩ (List.mem_of_getElem? hk) hpc

theorem BooksInv.remove (hi : BooksInv s) (hk : s.unpairs[k]? = some ⟨call, id, .remove⟩)
    (hins : Orchestrator.installs id s.orchestrator = false) :
    BooksInv { s with state := s.state.remove id, unpairs := s.unpairs.set k ⟨call, id, .persist⟩ } := by
  have hleft : id ∉ s.trust.paired := hi.leaving _ (List.mem_of_getElem? hk) (by simp)
  obtain ⟨hr, hl⟩ := listed_remove hi.list
    { s with state := s.state.remove id, unpairs := s.unpairs.set k ⟨call, id, .persist⟩ } rfl
  have hother : ∀ d ≠ id, listed { s with
      state := s.state.remove id, unpairs := s.unpairs.set k ⟨call, id, .persist⟩ } d = s.listed d := fun d hd => by
    rw [hl, Function.update_of_ne hd]
  exact
    { list := hr
      spelled := hi.spelled
      encoded := hi.encoded
      paired := fun d hp hx => by
        rw [hother d (by rintro rfl; exact hleft hp)]
        exact hi.paired d hp hx
      unlisted := fun d hp hx => by
        have hd : d ≠ id := by
          rintro rfl
          rw [hl, Function.update_self] at hx
          exact hx rfl
        rw [hother d hd] at hx
        obtain ⟨u, hm, hu, hpc⟩ := hi.unlisted d hp hx
        exact ⟨u, mem_set_of_ne hk hm (by rintro rfl; exact hd hu.symm), hu, hpc⟩
      unshown := fun d hp hx => hi.unpairing hk (by simp) hp hx
      leaving := hi.left hk (by simp)
      installing := fun h pc hx => (hi.installing h pc hx).other (installs_ne hins hx) (fun _ _ => Iff.rfl)
        (Finset.Subset.refl _) hother fun _ _ => rfl }

theorem BooksInv.persist {file : Option PersistedState} (hi : BooksInv s)
    (hk : s.unpairs[k]? = some ⟨call, id, .persist⟩) :
    BooksInv { s with file, unpairs := s.unpairs.set k ⟨call, id, .removeObject⟩ } where
  list := hi.list
  spelled := hi.spelled
  encoded := hi.encoded
  paired := hi.paired
  unlisted d hp hx := by
    obtain ⟨u, hm, hu, hpc⟩ := hi.unlisted d hp hx
    exact ⟨u, mem_set_of_ne hk hm (by rintro rfl; cases hpc), hu, hpc⟩
  unshown d hp hx := hi.unpairing hk (by simp) hp hx
  leaving := hi.left hk (by simp)
  installing := hi.installing

theorem BooksInv.removeObject (hi : BooksInv s) (hk : s.unpairs[k]? = some ⟨call, id, .removeObject⟩)
    (hins : Orchestrator.installs id s.orchestrator = false) (hw : ¬ s.Awaits id) :
    BooksInv { s with objects := s.objects.erase id, unpairs := s.unpairs.eraseIdx k } := by
  have hleft : id ∉ s.trust.paired := hi.leaving _ (List.mem_of_getElem? hk) (by simp)
  have hother : ∀ d ≠ id, due { s with objects := s.objects.erase id, unpairs := s.unpairs.eraseIdx k } d = s.due d :=
    fun d hd => due_congr (by unfold shown; rw [Finmap.lookup_erase_ne hd]) rfl
  have hgone : due { s with objects := s.objects.erase id, unpairs := s.unpairs.eraseIdx k } id = none := by
    rw [due_eq_shown (s := { s with objects := s.objects.erase id, unpairs := s.unpairs.eraseIdx k }) hw]
    unfold shown
    rw [Finmap.lookup_erase]
    rfl
  exact
    { list := hi.list
      spelled := fun d o hx => hi.spelled d o (HashMap.lookup_erase_some.mp hx).2
      encoded := hi.encoded
      paired := fun d hp hx => by
        rw [hother d (by rintro rfl; exact hleft hp)]
        exact hi.paired d hp hx
      unlisted := fun d hp hx => by
        obtain ⟨u, hm, hu, hpc⟩ := hi.unlisted d hp hx
        exact ⟨u, mem_eraseIdx_of_ne hk hm (by rintro rfl; cases hpc), hu, hpc⟩
      unshown := fun d hp hx => by
        have hd : d ≠ id := by
          rintro rfl
          exact hx hgone
        rw [hother d hd] at hx
        obtain ⟨u, hm, hu, hpc⟩ := hi.unshown d hp hx
        exact ⟨u, mem_eraseIdx_of_ne hk hm (by rintro rfl; exact hd hu.symm), hu, hpc⟩
      leaving := fun u hm hpc => hi.leaving u (List.mem_of_mem_eraseIdx hm) hpc
      installing := fun h pc hx => (hi.installing h pc hx).other (installs_ne hins hx) (fun _ _ => Iff.rfl)
        (Finset.Subset.refl _) (fun _ _ => rfl) hother }

end

theorem BooksInv.unpairStep {k : Nat} {ok : Bool} (hi : BooksInv s) (hdis : disjoint s (.unpairStep k ok) = true)
    (h : s.unpairStep k ok = some (s', os)) : BooksInv s' := by
  have hnot : ∀ {call id pc}, s.unpairs[k]? = some ⟨call, id, pc⟩ →
      Orchestrator.installs id s.orchestrator = false ∧ (pc = .removeObject → ¬ s.Awaits id) := by
    intro call id pc hk
    simpa only [disjoint, hk, decide_eq_true_eq] using hdis
  cases unpairStep_move h with
  | unpin call id hk hs =>
    subst hs
    exact hi.unpin hk (hnot hk).1
  | remove call id hk hs =>
    subst hs
    exact hi.remove hk (hnot hk).1
  | persist call id hk hs =>
    subst hs
    exact hi.persist hk
  | removeObject call id hk hs =>
    subst hs
    exact hi.removeObject hk (hnot hk).1 ((hnot hk).2 rfl)

/-! ## A handshake -/

theorem installs_self {h : Handling} {pc : HandshakePc} (hpc : HandshakePc.installs pc = true) :
    Orchestrator.installs h.deviceId (.handshake h pc) = true := by
  simp [Orchestrator.installs, hpc]

theorem installs_other {h : Handling} {pc : HandshakePc} (hd : d ≠ h.deviceId) :
    Orchestrator.installs d (.handshake h pc) = false := by
  simp [Orchestrator.installs, hd.symm]

theorem not_installs {h : Handling} {pc : HandshakePc} (hpc : HandshakePc.installs pc = false) :
    Orchestrator.installs d (.handshake h pc) = false := by
  simp [Orchestrator.installs, hpc]

theorem shown_eq_none_iff : s.shown d = none ↔ s.objects.lookup d = none := Option.map_eq_none_iff

/-- The device is pinned: nothing was left of it. -/
theorem BooksInv.pins {h : Handling} (hi : BooksInv s) (ho : s.orchestrator = .handshake h .pin)
    (hdis : ∀ u ∈ s.unpairs, u.id = h.deviceId → u.pc = .unpin) :
    BooksInv (({ s with trust := s.trust.pin h.deviceId } : Daemon).handshake h .closeWindow) := by
  have hnew : h.deviceId ∉ s.trust.paired := hi.installing h .pin ho
  have hlisted : s.listed h.deviceId = none := by
    by_contra hx
    obtain ⟨u, hm, hu, hpc⟩ := hi.unlisted _ hnew hx
    rw [hdis u hm hu] at hpc
    cases hpc
  have hdue : s.due h.deviceId = none := by
    by_contra hx
    obtain ⟨u, hm, hu, hpc⟩ := hi.unshown _ hnew hx
    exact hpc (hdis u hm hu)
  have hpaired : ∀ {x}, x ∈ insert h.deviceId s.trust.paired ↔ x = h.deviceId ∨ x ∈ s.trust.paired :=
    Finset.mem_insert
  exact
    { list := hi.list
      spelled := hi.spelled
      encoded := hi.encoded
      paired := fun d hp hx => by
        rcases hpaired.mp hp with rfl | hp
        · have hins : Orchestrator.installs h.deviceId (.handshake h .closeWindow) = true := installs_self rfl
          cases hins.symm.trans hx
        · exact hi.paired d hp (by rw [ho]; exact not_installs rfl)
      unlisted := fun d hp hx => hi.unlisted d (fun hm => hp (hpaired.mpr (Or.inr hm))) hx
      unshown := fun d hp hx => hi.unshown d (fun hm => hp (hpaired.mpr (Or.inr hm))) hx
      leaving := fun u hm hpc hp => by
        rcases hpaired.mp hp with hd | hp
        · exact hpc (hdis u hm hd)
        · exact hi.leaving u hm hpc hp
      installing := fun h' pc hx => by
        cases hx
        exact ⟨hpaired.mpr (Or.inl rfl), hlisted, hdue⟩ }

theorem BooksInv.upserts {h : Handling} (hi : BooksInv s) (ho : s.orchestrator = .handshake h .upsert) :
    BooksInv (({ s with state := s.state.upsert h.deviceId h.name } : Daemon).handshake h .persist) := by
  obtain ⟨hp₀, -, hdue⟩ := hi.installing h .upsert ho
  obtain ⟨hr, hl⟩ := listed_upsert hi.list (({ s with state := s.state.upsert h.deviceId h.name } :
    Daemon).handshake h .persist) rfl
  have hother : ∀ d ≠ h.deviceId, listed (({ s with state := s.state.upsert h.deviceId h.name } :
      Daemon).handshake h .persist) d = s.listed d := fun d hd => by rw [hl, Function.update_of_ne hd]
  exact
    { list := hr
      spelled := hi.spelled
      encoded := hi.encoded
      paired := fun d hp hx => by
        have hd : d ≠ h.deviceId := by
          rintro rfl
          have hins : Orchestrator.installs h.deviceId (.handshake h .persist) = true := installs_self rfl
          cases hins.symm.trans hx
        rw [hother d hd]
        exact hi.paired d hp (by rw [ho]; exact installs_other hd)
      unlisted := fun d hp hx => by
        have hd : d ≠ h.deviceId := by
          rintro rfl
          exact hp hp₀
        rw [hother d hd] at hx
        exact hi.unlisted d hp hx
      unshown := hi.unshown
      leaving := hi.leaving
      installing := fun h' pc hx => by
        cases hx
        refine ⟨hp₀, ?_, hdue⟩
        rw [hl, Function.update_self] }

/-- An object that was missing shows the name the list has. -/
theorem BooksInv.creates {h : Handling} (hi : BooksInv s) (ho : s.orchestrator = .handshake h .createObject)
    (hw : ¬ s.Awaits h.deviceId) (hnone : s.objects.lookup h.deviceId = none) :
    BooksInv (({ s with objects := s.objects.insert h.deviceId ⟨h.name, toHex h.deviceId, false⟩ } :
      Daemon).handshake h .setConnected) := by
  obtain ⟨hp₀, hsome, hbooks⟩ := hi.installing h .createObject ho
  have hlisted : s.listed h.deviceId = some h.name := by
    rw [← shown_eq_none_iff, ← due_eq_shown hw] at hnone
    rcases hbooks with he | ⟨hl, -⟩
    · rw [← he, hnone] at hsome
      cases hsome
    · exact hl
  have hself : due (({ s with objects := s.objects.insert h.deviceId ⟨h.name, toHex h.deviceId, false⟩ } :
      Daemon).handshake h .setConnected) h.deviceId = some h.name := by
    unfold due shown Daemon.handshake
    rw [Finmap.lookup_insert]
    rfl
  have hother : ∀ d ≠ h.deviceId, due (({ s with
      objects := s.objects.insert h.deviceId ⟨h.name, toHex h.deviceId, false⟩ } : Daemon).handshake h .setConnected) d =
        s.due d := fun d hd =>
    due_congr (by unfold shown Daemon.handshake; rw [Finmap.lookup_insert_of_ne _ hd]) rfl
  exact
    { list := hi.list
      spelled := fun d o hx => by
        rcases HashMap.lookup_insert_some.mp hx with ⟨rfl, rfl⟩ | ⟨-, hx⟩
        · rfl
        · exact hi.spelled d o hx
      encoded := hi.encoded
      paired := fun d hp hx => by
        by_cases hd : d = h.deviceId
        · subst hd
          exact ⟨hsome, hself.trans hlisted.symm⟩
        · rw [hother d hd]
          exact hi.paired d hp (by rw [ho]; exact installs_other hd)
      unlisted := hi.unlisted
      unshown := fun d hp hx => by
        have hd : d ≠ h.deviceId := by
          rintro rfl
          exact hp hp₀
        rw [hother d hd] at hx
        exact hi.unshown d hp hx
      leaving := hi.leaving
      installing := fun h' pc hx => by
        cases hx
        trivial }

/-- Where there is an object the handshake is done with it. -/
theorem BooksInv.present {h : Handling} {pc : HandshakePc} (hi : BooksInv s) (ho : s.orchestrator = .handshake h pc)
    (hw : ¬ s.Awaits h.deviceId) (hat : (s.listed h.deviceId).isSome = true ∧
      (s.due h.deviceId = s.listed h.deviceId ∨ s.listed h.deviceId = some h.name ∧ s.due h.deviceId = none))
    (hx : (s.objects.lookup h.deviceId).isSome = true) : BooksInv (s.handshake h .setConnected) := by
  obtain ⟨hsome, hbooks⟩ := hat
  refine hi.moved rfl rfl rfl rfl rfl rfl (fun d _ => ?_) fun h' pc' hx => by cases hx; trivial
  by_cases hd : d = h.deviceId
  · subst hd
    refine Or.inr ⟨hsome, hbooks.resolve_right fun hn => ?_⟩
    rw [shown_eq_none_iff.mp ((due_eq_shown hw).symm.trans hn.2)] at hx
    cases hx
  · rw [ho]
    exact Or.inl (installs_other hd)

theorem BooksInv.handshake {h : Handling} {pc : HandshakePc} {ok : Bool} {target : DeviceId} (hi : BooksInv s)
    (hdis : disjoint s (.orchestrate ok target) = true) (hw : ∀ d, ¬ s.Awaits d)
    (ho : s.orchestrator = .handshake h pc) (hs : s.handshakeStep h ok pc = some (s', os)) : BooksInv s' := by
  have hat := hi.installing h pc ho
  -- steps that neither begin nor end the installing
  have hstays : ∀ {pc'}, HandshakePc.installs pc' = HandshakePc.installs pc → ∀ d,
      Orchestrator.installs d (.handshake h pc') = false → Orchestrator.installs d s.orchestrator = false ∨
        (s.listed d).isSome = true ∧ s.due d = s.listed d := fun he d hx => by
    rw [ho]
    simp only [Orchestrator.installs, he] at hx ⊢
    exact Or.inl hx
  have hout : HandshakePc.installs pc = false → ∀ o d, Orchestrator.installs d o = false →
      Orchestrator.installs d s.orchestrator = false ∨ (s.listed d).isSome = true ∧ s.due d = s.listed d :=
    fun he _ d _ => by
      rw [ho]
      exact Or.inl (not_installs he)
  cases handshakeStep_move hs with
  | pins =>
    simp only [disjoint, ho] at hdis
    exact hi.pins ho (by simpa using hdis)
  | upserts => exact hi.upserts ho
  | creates =>
    by_cases hx : (s.objects.lookup h.deviceId).isSome = true
    · rw [if_pos hx]
      exact hi.present ho (hw _) hat.2 hx
    · rw [if_neg hx]
      exact hi.creates ho (hw _) (Option.not_isSome_iff_eq_none.mp hx)
  | known hp =>
    obtain ⟨hsome, heq⟩ := hi.paired h.deviceId hp (by rw [ho]; exact not_installs rfl)
    exact hi.moved rfl rfl rfl rfl rfl rfl (hout rfl _) fun h' pc' hx => by cases hx; exact ⟨hp, hsome, Or.inl heq⟩
  | presents presented hp _ =>
    exact hi.moved rfl rfl rfl rfl rfl rfl (hout rfl _) fun h' pc' hx => by cases hx; exact hp
  | redeems | asks | registers | confirmed =>
    exact hi.moved rfl rfl rfl rfl rfl rfl (hout rfl _) fun h' pc' hx => by cases hx; exact hat
  | closesWindow =>
    exact hi.moved rfl rfl rfl rfl rfl rfl (hstays rfl) fun h' pc' hx => by cases hx; exact hat
  | persists =>
    rw [persistState_eq]
    obtain ⟨hp, hl, hn⟩ := hat
    refine hi.moved rfl rfl rfl rfl rfl rfl (hstays rfl) fun h' pc' hx => ?_
    cases hx
    exact ⟨hp, by rw [hl]; rfl, Or.inr ⟨hl, hn⟩⟩
  | ensures =>
    by_cases hx : (s.objects.lookup h.deviceId).isSome = true
    · rw [if_pos hx]
      exact hi.present ho (hw _) hat.2 hx
    · rw [if_neg hx]
      exact hi.moved rfl rfl rfl rfl rfl rfl (hstays rfl) fun h' pc' hx => by cases hx; exact hat
  | sets =>
    refine hi.same rfl rfl (fun d => due_congr (shown_setConnected _ _ _ _) rfl)
      (fun d o hx => spelled_setConnected _ _ hi.spelled hx) (fun _ he => he) (fun _ hm => hm) (fun _ hm => Or.inl hm)
      (fun d _ hx => hout rfl _ d hx) fun h' pc' hx => by cases hx; trivial
  | tokenless | unissued | unredeemed | rejected | timedOut | promotes | handleless =>
    exact hi.moved rfl rfl rfl rfl rfl rfl (hout rfl _) fun h' pc' hx => by cases hx

/-! ## Runs -/

/-- Every entry of the file is one the daemon writes, one for a device. -/
def Written (file : Option PersistedState) : Prop := ∃ m, (PersistedState.load file).Refines m

theorem BooksInv.initial {file : Option PersistedState} {clipboard : Content} (h : Written file) :
    BooksInv (initial file clipboard) := by
  obtain ⟨m, hm⟩ := h
  have hlist : (Daemon.initial file clipboard).state.Refines (Daemon.initial file clipboard).listed := by
    rwa [listed_of_refines (s := Daemon.initial file clipboard) hm]
  have hpaired : ∀ {d}, d ∈ (Daemon.initial file clipboard).trust.paired ↔
      ((Daemon.initial file clipboard).listed d).isSome = true :=
    List.mem_toFinset.trans hlist.mem_deviceIds
  -- the list that is loaded is the one to be exported
  have hdue : ∀ d, (Daemon.initial file clipboard).due d = (Daemon.initial file clipboard).listed d := fun _ => rfl
  exact
    { list := hlist
      spelled := fun d o hx => by
        rw [show (Daemon.initial file clipboard).objects.lookup d = none from Finmap.lookup_empty d] at hx
        cases hx
      encoded := hm.encoded
      paired := fun d hp _ => ⟨hpaired.mp hp, hdue d⟩
      unlisted := fun d hp hx => absurd (hpaired.mpr (Option.isSome_iff_ne_none.mpr hx)) hp
      unshown := fun d hp hx => by
        rw [hdue] at hx
        exact absurd (hpaired.mpr (Option.isSome_iff_ne_none.mpr hx)) hp
      leaving := fun u hm => by cases hm
      installing := fun h pc hx => by cases hx }

theorem BooksInv.confirmPairing {hex : String} {accept : Bool} (hi : BooksInv s)
    (h : s.confirmPairing hex accept = (s', os)) : BooksInv s' := by
  unfold Daemon.confirmPairing at h
  split at h
  · cases h
    exact hi
  · split at h
    · cases h
      exact hi
    · rename_i channel _
      cases h
      refine hi.moved rfl rfl rfl rfl rfl rfl (fun d hx => ?installs) fun h pc hx => ?handshake
      case installs =>
        rcases answer_cases channel accept s.orchestrator with ho | ⟨h', deadline, ho, -⟩
        · exact Or.inl (ho ▸ hx)
        · rw [ho]
          exact Or.inl (not_installs rfl)
      case handshake =>
        rcases answer_cases channel accept s.orchestrator with ho | ⟨h', deadline, ho, ho'⟩
        · exact hi.installing h pc (ho.symm.trans hx)
        · cases ho'.symm.trans hx
          have hn : h.deviceId ∉ s.trust.paired := hi.installing _ _ ho
          exact hn

theorem BooksInv.unpair {hex : String} (hi : BooksInv s) (h : s.unpair hex = (s', os)) : BooksInv s' := by
  unfold Daemon.unpair at h
  split at h
  · cases h
    exact hi
  · cases h
    refine hi.same rfl rfl (fun _ => rfl) hi.spelled (fun _ he => he) (fun _ hm => List.mem_append_left _ hm)
      (fun u hm => ?_) (fun _ _ hx => Or.inl hx) hi.installing
    rcases List.mem_append.mp hm with hm | hm
    · exact Or.inl hm
    · rw [List.mem_singleton.mp hm]
      exact Or.inr rfl

theorem BooksInv.bus (hi : BooksInv s) (hdis : disjoint s a = true) (h : step cfg s a = some (s', os))
    (ha : a.task = .bus) : BooksInv s' := by
  cases a with
  | startPairing random =>
    cases h
    exact hi.untouched rfl rfl rfl rfl rfl rfl
  | openWindow k =>
    simp only [Daemon.step, openWindow] at h
    split at h
    · cases h
      exact hi.untouched rfl rfl rfl rfl rfl rfl
    · cases h
  | setToken k addrs =>
    simp only [Daemon.step, setToken] at h
    split at h
    · cases h
      exact hi.untouched rfl rfl rfl rfl rfl rfl
    · cases h
  | confirmPairing hex accept => exact hi.confirmPairing (Option.some.inj h)
  | unpair hex => exact hi.unpair (Option.some.inj h)
  | unpairStep k ok => exact hi.unpairStep hdis h
  | restore => exact hi.restore h
  | _ => cases ha

/-- A handshake that is taken stands at its first question. -/
theorem dispatch_isPaired {i : Nat} {e : ListenerEvent} (hd : s.dispatch i e = (s', os)) (ho : s.orchestrator = .idle)
    {h : Handling} {pc : HandshakePc} (hx : s'.orchestrator = .handshake h pc) : pc = .isPaired := by
  cases e with
  | connected remote handle =>
    cases hd
    cases ho.symm.trans hx
  | session remote ev =>
    cases ev with
    | peerHandshake deviceId name caps token =>
      cases hd
      cases hx
      rfl
    | ponged rtt =>
      cases hd
      cases ho.symm.trans hx
    | clipboardReceived clip =>
      simp only [dispatch] at hd
      split at hd
      · cases hd
        cases hx
      · cases hd
        cases ho.symm.trans hx
    | closed reason =>
      cases hd
      simp only at hx
      split at hx <;> cases hx

theorem BooksInv.orchestrate {ok : Bool} {target : DeviceId} (hi : BooksInv s)
    (hdis : disjoint s (.orchestrate ok target) = true) (hstart : s.restoring ≠ [] → s.orchestrator = .idle)
    (h : s.orchestrate ok target = some (s', os)) : BooksInv s' := by
  cases orchestrate_turn h with
  | handshake hh pc ho hs =>
    refine hi.handshake hdis (fun d hw => ?_) ho hs
    cases ho.symm.trans (hstart hw.restoring)
  | taken i e rest ho _ hd =>
    have hpc : ∀ h pc, s'.orchestrator = .handshake h pc → pc = .isPaired := fun h pc hx => dispatch_isPaired hd ho hx
    obtain ⟨⟨_, _, _, rfl⟩, -⟩ := dispatch_frame hd
    refine hi.moved rfl rfl rfl rfl rfl rfl (fun d _ => Or.inl (by rw [ho]; rfl)) fun h pc hx => ?_
    rw [hpc h pc hx]
    trivial
  | received r pc ho hs =>
    obtain ⟨⟨_, _, _, _, o, rfl, hor⟩, -, -⟩ := receivedStep_frame hs
    refine hi.moved rfl rfl rfl rfl rfl rfl (fun d _ => Or.inl (by rw [ho]; rfl)) fun h pc hx => ?_
    rcases hor with rfl | ⟨pc', rfl⟩ <;> cases hx
  | closed id pc ho hs =>
    subst hs
    cases pc with
    | disconnect =>
      exact hi.moved rfl rfl rfl rfl rfl rfl (fun d _ => Or.inl (by rw [ho]; rfl)) fun h pc hx => by cases hx
    | setConnected =>
      exact hi.same rfl rfl (fun d => due_congr (shown_setConnected _ _ _ _) rfl)
        (fun d o hx => spelled_setConnected _ _ hi.spelled hx) (fun _ he => he) (fun _ hm => hm)
        (fun _ hm => Or.inl hm) (fun d _ _ => Or.inl (by rw [ho]; rfl)) fun h pc hx => by cases hx

theorem BooksInv.step (hi : BooksInv s) (hdis : disjoint s a = true)
    (hstart : s.restoring ≠ [] → s.orchestrator = .idle) (h : step cfg s a = some (s', os)) : BooksInv s' := by
  cases ha : a.task with
  | net =>
    obtain ⟨⟨_, _, _, rfl⟩, -⟩ := net_frame h ha
    exact hi.untouched rfl rfl rfl rfl rfl rfl
  | clipboard =>
    obtain ⟨⟨_, _, _, _, _, _, rfl⟩, -, -⟩ := clipboard_frame h ha
    exact hi.untouched rfl rfl rfl rfl rfl rfl
  | bus => exact hi.bus hdis h ha
  | orchestrator =>
    cases a with
    | orchestrate ok target => exact hi.orchestrate hdis hstart h
    | _ => cases ha

variable {tr : List Obs} {file : Option PersistedState} {clipboard : Content}

theorem run_books (hw : Written file) (h : Run (system cfg file clipboard) (fun _ s a => disjoint s a = true) tr s) :
    BooksInv s := by
  refine h.invariant (I := fun _ s => BooksInv s) (fun s h0 => ?_)
    fun _ _ _ _ _ hr hi hc hs => hi.step hc (fun hne => (run_starting hr hne).orchestrator) hs
  rw [h0]
  exact .initial hw

/-- The device is not being installed, no call has begun to unpair it, and its
object is not still to come. -/
structure Settled (s : Daemon) (d : DeviceId) : Prop where
  uninstalled : Orchestrator.installs d s.orchestrator = false
  uncalled : ∀ u ∈ s.unpairs, u.id = d → u.pc = .unpin
  unawaited : ¬ s.Awaits d

theorem BooksInv.agree (hi : BooksInv s) (hd : s.Settled d) :
    (d ∈ s.trust.paired ↔ (s.listed d).isSome = true) ∧ s.shown d = s.listed d := by
  rw [← due_eq_shown hd.unawaited]
  by_cases hp : d ∈ s.trust.paired
  · obtain ⟨hl, hs⟩ := hi.paired d hp hd.uninstalled
    exact ⟨iff_of_true hp hl, hs⟩
  · have hl : s.listed d = none := by
      by_contra hx
      obtain ⟨u, hm, hu, hpc⟩ := hi.unlisted d hp hx
      rw [hd.uncalled u hm hu] at hpc
      cases hpc
    have hs : s.due d = none := by
      by_contra hx
      obtain ⟨u, hm, hu, hpc⟩ := hi.unshown d hp hx
      exact hpc (hd.uncalled u hm hu)
    refine ⟨iff_of_false hp ?_, hs.trans hl.symm⟩
    rw [hl]
    exact Bool.false_ne_true

theorem mem_objects_iff : d ∈ s.objects ↔ (s.shown d).isSome = true := by
  unfold shown
  rw [Option.isSome_map, Option.isSome_iff_exists]
  exact HashMap.mem_iff

/-- A device that is settled is paired, in the device list and exported on the
bus or none of these, and its object shows the name the list has. -/
theorem run_books_agree (hw : Written file)
    (h : Run (system cfg file clipboard) (fun _ s a => disjoint s a = true) tr s) (hd : s.Settled d) :
    (d ∈ s.trust.paired ↔ d ∈ s.state.deviceIds) ∧ (d ∈ s.trust.paired ↔ d ∈ s.objects) ∧ s.shown d = s.listed d := by
  have hi := run_books hw h
  obtain ⟨hp, hs⟩ := hi.agree hd
  refine ⟨hp.trans hi.list.mem_deviceIds.symm, ?_, hs⟩
  rw [mem_objects_iff, hs]
  exact hp

/-! ## What a restart finds -/

def saves (s : Daemon) : Act → Bool
  | .unpairStep k ok =>
    match s.unpairs[k]? with
    | some ⟨_, _, .persist⟩ => ok
    | _ => true
  | .orchestrate ok _ =>
    match s.orchestrator with
    | .handshake _ .persist => ok
    | _ => true
  | _ => true

def Saving (s : Daemon) : Prop :=
  (∃ h, s.orchestrator = .handshake h .persist) ∨ ∃ u ∈ s.unpairs, u.pc = .persist

/-- The file holds the list unless that is about to be saved. -/
def Saved (s : Daemon) : Prop := PersistedState.load s.file = s.state ∨ s.Saving

theorem Saved.same (hi : s.Saved) (hst : s'.state = s.state) (hf : s'.file = s.file)
    (ho : ∀ h, s.orchestrator = .handshake h .persist → s'.orchestrator = .handshake h .persist)
    (hu : ∀ u ∈ s.unpairs, u.pc = .persist → u ∈ s'.unpairs) : s'.Saved := by
  rcases hi with hi | ⟨h, hx⟩ | ⟨u, hm, hpc⟩
  · refine Or.inl ?_
    rw [hf, hst]
    exact hi
  · exact Or.inr (Or.inl ⟨h, ho h hx⟩)
  · exact Or.inr (Or.inr ⟨u, hu u hm hpc, hpc⟩)

theorem Saved.unpairStep {k : Nat} {ok : Bool} (hi : s.Saved) (hok : saves s (.unpairStep k ok) = true)
    (h : s.unpairStep k ok = some (s', os)) : s'.Saved := by
  cases unpairStep_move h with
  | unpin call id hk hs =>
    subst hs
    exact hi.same rfl rfl (fun _ hx => hx) fun u hm hpc => mem_set_of_ne hk hm (by rintro rfl; cases hpc)
  | remove call id hk hs =>
    subst hs
    exact Or.inr (Or.inr ⟨⟨call, id, .persist⟩, mem_set_self hk, rfl⟩)
  | persist call id hk hs =>
    simp only [saves, hk] at hok
    subst hs hok
    exact Or.inl rfl
  | removeObject call id hk hs =>
    subst hs
    exact hi.same rfl rfl (fun _ hx => hx) fun u hm hpc => mem_eraseIdx_of_ne hk hm (by rintro rfl; cases hpc)

theorem Saved.handshake {h : Handling} {pc : HandshakePc} {ok : Bool} {target : DeviceId} (hi : s.Saved)
    (hok : saves s (.orchestrate ok target) = true) (ho : s.orchestrator = .handshake h pc)
    (hs : s.handshakeStep h ok pc = some (s', os)) : s'.Saved := by
  have hmove : ∀ {t : Daemon}, pc ≠ .persist → t.state = s.state → t.file = s.file → t.unpairs = s.unpairs →
      t.Saved := by
    intro t hpc hst hf hu
    refine hi.same hst hf (fun h' hx => ?_) (by rw [hu]; exact fun _ hm _ => hm)
    rw [ho] at hx
    cases hx
    exact absurd rfl hpc
  cases handshakeStep_move hs with
  | upserts => exact Or.inr (Or.inl ⟨h, rfl⟩)
  | persists =>
    simp only [saves, ho] at hok
    subst hok
    exact Or.inl rfl
  | _ => exact hmove (by simp) rfl rfl rfl

theorem Saved.step (hi : s.Saved) (hok : saves s a = true) (h : step cfg s a = some (s', os)) : s'.Saved := by
  cases ha : a.task with
  | net =>
    obtain ⟨⟨_, _, _, rfl⟩, -⟩ := net_frame h ha
    exact hi
  | clipboard =>
    obtain ⟨⟨_, _, _, _, _, _, rfl⟩, -, -⟩ := clipboard_frame h ha
    exact hi
  | bus =>
    cases a with
    | startPairing random =>
      cases h
      exact hi
    | openWindow k =>
      simp only [Daemon.step, openWindow] at h
      split at h
      · cases h
        exact hi
      · cases h
    | setToken k addrs =>
      simp only [Daemon.step, setToken] at h
      split at h
      · cases h
        exact hi
      · cases h
    | confirmPairing deviceId accept =>
      simp only [Daemon.step, confirmPairing] at h
      split at h
      · cases h
        exact hi
      · split at h
        · cases h
          exact hi
        · cases h
          refine hi.same rfl rfl (fun h hx => ?_) fun _ hm _ => hm
          show answer _ _ s.orchestrator = _
          rw [hx]
          rfl
    | unpair deviceId =>
      simp only [Daemon.step, Daemon.unpair] at h
      split at h
      · cases h
        exact hi
      · cases h
        exact hi.same rfl rfl (fun _ hx => hx) fun _ hm _ => List.mem_append_left _ hm
    | unpairStep k ok => exact hi.unpairStep hok h
    | restore =>
      obtain ⟨⟨_, _, rfl⟩, -⟩ := restore_frame h
      exact hi
    | _ => cases ha
  | orchestrator =>
    cases a with
    | orchestrate ok target =>
      cases orchestrate_turn h with
      | handshake hh pc ho hs => exact hi.handshake hok ho hs
      | taken i e rest ho _ hd =>
        obtain ⟨⟨_, _, _, rfl⟩, -⟩ := dispatch_frame hd
        exact hi.same rfl rfl (fun h hx => by cases ho.symm.trans hx) fun _ hm _ => hm
      | received r pc ho hs =>
        obtain ⟨⟨_, _, _, _, _, rfl, -⟩, -, -⟩ := receivedStep_frame hs
        exact hi.same rfl rfl (fun h hx => by cases ho.symm.trans hx) fun _ hm _ => hm
      | closed id pc ho hs =>
        subst hs
        cases pc <;> exact hi.same rfl rfl (fun h hx => by cases ho.symm.trans hx) fun _ hm _ => hm
    | _ => cases ha

theorem run_saved (h : Run (system cfg file clipboard) (fun _ s a => saves s a = true) tr s) : s.Saved := by
  refine h.invariant (I := fun _ s => s.Saved) (fun s h0 => ?_) (fun _ _ _ _ _ _ hi hc hs => hi.step hc hs)
  rw [h0]
  exact Or.inl rfl

/-! ## The start-up loop by itself -/

/-- Nothing but the loop has run since the daemon started. -/
structure Restoring (file : Option PersistedState) (clipboard : Content) (s : Daemon) : Prop where
  trust : s.trust = (initial file clipboard).trust
  state : s.state = (initial file clipboard).state
  unpairs : s.unpairs = []
  orchestrator : s.orchestrator = .idle
  unconnected : ∀ d o, s.objects.lookup d = some o → o.connected = false

theorem Restoring.step (hi : Restoring file clipboard s) (h : s.restore = some (s', os)) :
    Restoring file clipboard s' := by
  obtain ⟨hm, -⟩ := restore_move h
  cases hm with
  | skips e rest hr _ => exact { hi with }
  | exports e rest id hr _ _ =>
    refine { hi with unconnected := fun d o hx => ?_ }
    rcases HashMap.lookup_insert_some.mp hx with ⟨rfl, rfl⟩ | ⟨-, hx⟩
    · rfl
    · exact hi.unconnected d o hx

/-- The runs of the loop of a daemon that has just started. -/
def starting : List Obs → Daemon → Act → Prop := fun _ _ a => a = .restore

theorem run_restoring (h : Run (system cfg file clipboard) starting tr s) : Restoring file clipboard s := by
  refine h.invariant (I := fun _ s => Restoring file clipboard s) (fun s h0 => ?_) fun _ _ _ _ _ _ hi hc hs => ?_
  · rw [h0]
    exact ⟨rfl, rfl, rfl, rfl, fun d o hx => by
      rw [show (initial file clipboard).objects.lookup d = none from Finmap.lookup_empty d] at hx
      cases hx⟩
  · rw [show _ = Act.restore from hc] at hs
    exact hi.step hs

theorem run_restores : ∀ {ds : List PersistedDevice} {tr : List Obs} {s : Daemon},
    Run (system cfg file clipboard) starting tr s → s.restoring = ds →
      ∃ tr' s', Run (system cfg file clipboard) starting tr' s' ∧ s'.restoring = []
  | [], tr, s, h, hr => ⟨tr, s, h, hr⟩
  | e :: ds, tr, s, h, hr => by
    have hsome : s.restore.isSome = true := by
      unfold restore
      rw [hr]
      cases hid : fromHex e.deviceId <;> simp [hid]
    obtain ⟨⟨s', os⟩, hs⟩ := Option.isSome_iff_exists.mp hsome
    have hr' : s'.restoring = ds := by
      obtain ⟨hm, -⟩ := restore_move hs
      cases hm with
      | skips e' rest hr' _ | exports e' rest id hr' _ _ => exact (List.cons.inj (hr'.symm.trans hr)).2
    exact run_restores (h.step rfl hs) hr'

/-- Once the daemon is through with its start, it shows what the list has. -/
theorem restored_objects (hw : Written file) (h : Run (system cfg file clipboard) starting tr s)
    (hr : s.restoring = []) (d : DeviceId) :
    s.objects.lookup d = ((initial file clipboard).listed d).map fun name => ⟨name, toHex d, false⟩ := by
  have hs := run_restoring h
  have hi : BooksInv s := run_books hw (h.mono fun _ _ a ha => by rw [show a = .restore from ha]; rfl)
  have hsettled : s.Settled d :=
    { uninstalled := by rw [hs.orchestrator]; rfl
      uncalled := by rw [hs.unpairs]; exact fun u hu => absurd hu List.not_mem_nil
      unawaited := not_awaits hr }
  rw [← listed_same (s := initial file clipboard) hs.state, ← (hi.agree hsettled).2]
  unfold shown
  rw [Option.map_map]
  cases ho : s.objects.lookup d with
  | none => rfl
  | some o =>
    rw [Option.map_some]
    show some o = some ⟨o.name, toHex d, false⟩
    rw [← hi.spelled d o ho, ← hs.unconnected d o ho]

/-- The daemon has the trust store and the device list of another and its objects, none connected. -/
structure Resumes (s s' : Daemon) : Prop where
  trust : s'.trust.paired = s.trust.paired
  state : s'.state = s.state
  objects : ∀ d, s'.objects.lookup d = (s.objects.lookup d).map fun o => { o with connected := false }

/-- Once every device is settled, a daemon that starts from the file and is
through with its start trusts the devices this one trusts, remembers them as it
does and shows them as it does, none connected; it does get there, and the file
is again one a run may start from. -/
theorem run_restart (hw : Written file)
    (h : Run (system cfg file clipboard) (fun _ s a => disjoint s a = true ∧ saves s a = true) tr s)
    (hd : ∀ d, s.Settled d) (clipboard' : Content) :
    Written s.file ∧
      (∀ tr' s', Run (system cfg s.file clipboard') starting tr' s' → s'.restoring = [] → s.Resumes s') ∧
      ∃ tr' s', Run (system cfg s.file clipboard') starting tr' s' ∧ s'.restoring = [] := by
  have hi := run_books hw (h.mono fun _ _ _ hc => hc.1)
  have hstate : PersistedState.load s.file = s.state := by
    refine (run_saved (h.mono fun _ _ _ hc => hc.2)).resolve_right ?_
    rintro (⟨h, ho⟩ | ⟨u, hm, hpc⟩)
    · have hins := (hd h.deviceId).uninstalled
      rw [ho, installs_self rfl] at hins
      cases hins
    · rw [(hd u.id).uncalled u hm rfl] at hpc
      cases hpc
  have hfile : Written s.file := ⟨s.listed, by rw [hstate]; exact hi.list⟩
  refine ⟨hfile, fun tr' s' hr hend => ?_, run_restores (.init rfl) rfl⟩
  have hs := run_restoring hr
  refine ⟨?trust, hs.state.trans hstate, fun d => ?objects⟩
  case trust =>
    rw [hs.trust]
    refine Finset.ext fun d => ?_
    rw [((hi.agree (hd d)).1), ← hi.list.mem_deviceIds]
    show d ∈ (PersistedState.load s.file).deviceIds.toFinset ↔ _
    rw [hstate, List.mem_toFinset]
  case objects =>
    have hlisted : (initial s.file clipboard').listed d = s.listed d := congrFun (listed_same hstate) d
    rw [restored_objects hfile hr hend, hlisted, ← (hi.agree (hd d)).2]
    unfold shown
    rw [Option.map_map]
    refine Option.map_congr fun o ho => ?_
    rw [← hi.spelled d o ho]
    rfl

end

theorem written_none : Written none := ⟨_, PersistedState.refines_empty⟩

/-- The phone and the tablet are paired, and the tablet is unpaired again. -/
def Sample.keepsPhone : List Act :=
  Sample.pair 0 (Sample.addr 2) Sample.phoneKey ++ Sample.pair 1 (Sample.addr 3) Sample.tabletKey ++
    Sample.unpairAll Sample.tablet true

open Sample in
theorem keepsPhone_enabled : (exec (system cfg none empty) (fun _ s a => disjoint s a && saves s a) []
    (initial none empty) keepsPhone).isSome = true := by
  decide +kernel

open Sample in
theorem run_books_agree_keepsPhone :
    let s := ((exec (system cfg none empty) (fun _ s a => disjoint s a && saves s a) [] (initial none empty)
      keepsPhone).get keepsPhone_enabled).2
    phone ∈ s.trust.paired ∧ tablet ∉ s.objects ∧ (phone ∈ s.trust.paired ↔ phone ∈ s.objects) := by
  have h := run_of_exec (C := fun _ s a => disjoint s a = true) (fun _ _ _ hc => (Bool.and_eq_true_iff.mp hc).1) rfl
    keepsPhone_enabled
  refine ⟨by decide +kernel, by decide +kernel, (run_books_agree written_none h ⟨?_, ?_, ?_⟩).2.1⟩
  · rfl
  · exact fun u hu => by cases hu
  · exact not_awaits rfl

open Sample in
theorem run_restart_keepsPhone :
    let s := ((exec (system cfg none empty) (fun _ s a => disjoint s a && saves s a) [] (initial none empty)
      keepsPhone).get keepsPhone_enabled).2
    s.trust.paired = {phone} ∧
      ∀ tr' s', Run (system cfg s.file empty) starting tr' s' → s'.restoring = [] → s.Resumes s' := by
  have h := run_of_exec (C := fun _ s a => disjoint s a = true ∧ saves s a = true)
    (fun _ _ _ hc => Bool.and_eq_true_iff.mp hc) rfl keepsPhone_enabled
  refine ⟨by decide +kernel, (run_restart written_none h (fun d => ⟨?_, ?_, ?_⟩) empty).2.1⟩
  · rfl
  · exact fun u hu => by cases hu
  · exact not_awaits rfl

end Daemon

end PenguinSync
