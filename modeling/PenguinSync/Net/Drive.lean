import PenguinSync.Lib.Lts
import PenguinSync.Net.Session

/-!
# The select loop of a session

One step is one poll of a branch. `select!` drops the read it was waiting on
when another branch wins, and the bytes that read had consumed are gone with
it.
-/

namespace PenguinSync

open Lts

/-- The pending read has consumed the first `taken` bytes of `stream`. -/
structure Drive where
  session : Session
  taken : Nat
  stream : List UInt8
  arriving : List UInt8
  commandsOpen : Bool

namespace Drive

inductive Act where
  | start (write : Bool)
  | arrive (n : Nat)
  | queue (c : Clip)
  | read (nonce : UInt64) (clock : Time) (write : Bool)
  | tick (now : Time) (nonce : UInt64) (write : Bool)
  | command (write : Bool)
  | commandsClosed
  | lost (e : String)

inductive Obs where
  | handed (m : Message)
  | dropped (bs : List UInt8)
  | out (o : Output)
  deriving DecidableEq

def dropRead (d : Drive) : Drive := { d with stream := d.stream.drop d.taken, taken := 0 }

def lose (d : Drive) : Obs := .dropped (d.stream.take d.taken)

def andThen (d : Drive) (os : List Obs) (r : Session × List Output) : Drive × List Obs :=
  ({ d with session := r.1 }, os ++ r.2.map .out)

def step (d : Drive) : Act → Option (Drive × List Obs)
  | .start write =>
    if d.session.stage = .start then some (d.andThen [] (d.session.give .started 0 0 write)) else none
  | .arrive n => some ({ d with stream := d.stream ++ d.arriving.take n, arriving := d.arriving.drop n }, [])
  | .queue c => if d.commandsOpen then some (d.andThen [] (d.session.sendClipboard c, [])) else none
  | .read nonce clock write =>
    if d.session.stage = .loop then
      match readMessage d.stream with
      | (n, none) => some ({ d with taken := n }, [])
      | (n, some (.ok m)) =>
        some (({ d with stream := d.stream.drop n, taken := 0 } : Drive).andThen [.handed m]
          (d.session.give (.received m) nonce clock write))
      | (n, some (.error e)) =>
        some (({ d with stream := d.stream.drop n, taken := 0 } : Drive).andThen []
          (d.session.close (.framingError e)))
    else none
  | .tick now nonce write =>
    if d.session.stage = .loop then
      some (d.dropRead.andThen [d.lose] (d.session.give (.tick now) nonce 0 write))
    else none
  | .command write =>
    if d.session.stage = .loop ∧ d.commandsOpen then
      match d.session.commands with
      | [] => none
      | c :: cs =>
        some (d.dropRead.andThen [d.lose]
          (({ d.session with commands := cs } : Session).give (.sendClipboard c) 0 0 write))
    else none
  | .commandsClosed =>
    if d.session.stage = .loop ∧ d.commandsOpen ∧ d.session.commands = [] then
      some ({ d.dropRead with commandsOpen := false }, [d.lose])
    else none
  | .lost e =>
    if d.session.stage = .loop then some (d.andThen [] (d.session.close (.connectionLost e))) else none

def initial (m : ConnectionMachine) (bytes : List UInt8) : Drive :=
  { session := .new m, taken := 0, stream := [], arriving := bytes, commandsOpen := true }

def system (m : ConnectionMachine) (bytes : List UInt8) : System Drive Act Obs :=
  { init := (· = initial m bytes), step }

/-! ## What is read off a run -/

def handed (tr : List Obs) : List Message :=
  tr.filterMap fun
    | .handed m => some m
    | _ => none

def droppedBytes (tr : List Obs) : List UInt8 :=
  tr.flatMap fun
    | .dropped bs => bs
    | _ => []

def Misframed (tr : List Obs) : Prop := ∃ e, .out (.event (.closed (.framingError e))) ∈ tr

/-- No branch won over a read that had consumed bytes. -/
def Kept (tr : List Obs) : Prop := ∀ bs, .dropped bs ∈ tr → bs = []

def Written (tr : List Obs) : Prop := ∀ m, .out (.unsent m) ∉ tr

section
variable {tr os : List Obs}

theorem handed_append : handed (tr ++ os) = handed tr ++ handed os := List.filterMap_append

theorem droppedBytes_append : droppedBytes (tr ++ os) = droppedBytes tr ++ droppedBytes os := List.flatMap_append

theorem misframed_append : Misframed (tr ++ os) ↔ Misframed tr ∨ Misframed os := by
  simp only [Misframed, List.mem_append, exists_or]

theorem kept_append : Kept (tr ++ os) ↔ Kept tr ∧ Kept os := by
  simp only [Kept, List.mem_append, or_imp, forall_and]

theorem written_append : Written (tr ++ os) ↔ Written tr ∧ Written os := by
  simp only [Written, List.mem_append, not_or, forall_and]

theorem kept_iff : Kept tr ↔ droppedBytes tr = [] := by
  unfold Kept droppedBytes
  rw [List.flatMap_eq_nil_iff]
  constructor
  · intro h o ho
    cases o with
    | dropped bs => exact h bs ho
    | _ => rfl
  · intro h bs hb
    exact h _ hb

end

/-! ## Message by message -/

def outputs (os : List Obs) : List Output :=
  os.filterMap fun
    | .out o => some o
    | _ => none

theorem outputs_out (os : List Output) : outputs (os.map .out) = os := by
  simp [outputs, List.filterMap_map]

theorem outputs_handed (m : Message) (os : List Output) : outputs (.handed m :: os.map .out) = os := outputs_out os

theorem outputs_lose (d : Drive) (os : List Output) : outputs (d.lose :: os.map .out) = os := outputs_out os

/-- The loop refines the session: each of its steps is a step of the session, queues a clip for it or is none of it. -/
theorem step_session {d d' : Drive} {a : Act} {os : List Obs} (h : step d a = some (d', os)) :
    (d'.session = d.session ∨ ∃ c, d'.session = d.session.sendClipboard c) ∧ outputs os = [] ∨
      ∃ b, d.session.step b = some (d'.session, outputs os) := by
  cases a with
  | start write =>
    simp only [step, Option.ite_none_right_eq_some, Option.some.injEq] at h
    obtain ⟨hs, rfl, rfl⟩ := h
    refine Or.inr ⟨.start write, ?_⟩
    rw [List.nil_append, outputs_out]
    exact if_pos hs
  | arrive n =>
    cases h
    exact Or.inl ⟨Or.inl rfl, rfl⟩
  | queue c =>
    simp only [step, Option.ite_none_right_eq_some, Option.some.injEq] at h
    obtain ⟨-, rfl, rfl⟩ := h
    exact Or.inl ⟨Or.inr ⟨c, rfl⟩, rfl⟩
  | read nonce clock write =>
    simp only [step, Option.ite_none_right_eq_some] at h
    obtain ⟨hs, h⟩ := h
    split at h
    · cases h
      exact Or.inl ⟨Or.inl rfl, rfl⟩
    · rename_i n m hr
      cases h
      rcases readMessage_ready hr with ⟨len, -, he⟩ | ⟨body, hb, he⟩
      · cases he
      · refine Or.inr ⟨.receive body nonce clock write, ?_⟩
        have hd : decode body = some m := by
          cases hd : decode body with
          | none => rw [hd] at he; cases he
          | some m' => rw [hd] at he; cases he; rfl
        simp only [Session.step]
        rw [if_pos ⟨hs, hb⟩, hd]
        exact congrArg (fun os => some (_, os)) (outputs_handed m _).symm
    · rename_i n e hr
      cases h
      rcases readMessage_ready hr with ⟨len, hlen, he⟩ | ⟨body, hb, he⟩
      · cases he
        exact Or.inr ⟨.oversized len, if_pos ⟨hs, hlen⟩⟩
      · refine Or.inr ⟨.receive body nonce clock write, ?_⟩
        have hd : decode body = none ∧ e = .decode := by
          cases hd : decode body with
          | none => rw [hd] at he; cases he; exact ⟨rfl, rfl⟩
          | some m' => rw [hd] at he; cases he
        simp only [Session.step]
        rw [if_pos ⟨hs, hb⟩, hd.1, hd.2]
        rfl
  | tick now nonce write =>
    simp only [step, Option.ite_none_right_eq_some, Option.some.injEq] at h
    obtain ⟨hs, rfl, rfl⟩ := h
    refine Or.inr ⟨.tick now nonce write, ?_⟩
    rw [List.singleton_append, outputs_lose]
    exact if_pos hs
  | command write =>
    simp only [step, Option.ite_none_right_eq_some] at h
    obtain ⟨⟨hs, -⟩, h⟩ := h
    split at h
    · cases h
    · rename_i c cs hc
      cases h
      refine Or.inr ⟨.command write, ?_⟩
      rw [List.singleton_append, outputs_lose]
      simp only [Session.step]
      rw [if_pos hs, hc]
  | commandsClosed =>
    simp only [step, Option.ite_none_right_eq_some, Option.some.injEq] at h
    obtain ⟨-, rfl, rfl⟩ := h
    exact Or.inl ⟨Or.inl rfl, rfl⟩
  | lost e =>
    simp only [step, Option.ite_none_right_eq_some, Option.some.injEq] at h
    obtain ⟨hs, rfl, rfl⟩ := h
    exact Or.inr ⟨.lost e, if_pos hs⟩

/-! ## What a step does to the stream -/

section
variable {d d' : Drive} {a : Act} {os tr : List Obs}

/-- Outputs that report a framing error exactly where a write failed. -/
def Honest (os : List Obs) : Prop := handed os = [] ∧ droppedBytes os = [] ∧ (Misframed os ↔ ¬ Written os)

theorem honest_nil : Honest [] := by simp [Honest, handed, droppedBytes, Misframed, Written]

theorem honest_give (ses : Session) (ev : Event) (nonce : UInt64) (clock : Time) (write : Bool) :
    Honest ((ses.give ev nonce clock write).2.map .out) := by
  refine ⟨by simp [handed], by simp [droppedBytes, List.flatMap_map], ?_⟩
  simp only [Session.give, Misframed, Written, List.mem_map, Obs.out.injEq, exists_eq_right, not_forall, not_not]
  constructor
  · rintro ⟨e, he⟩
    exact ((runActions_framing _ _ _).mp he).2
  · intro h
    exact ⟨.write, (runActions_framing _ _ _).mpr ⟨rfl, h⟩⟩

inductive Moves (d d' : Drive) : List Obs → Prop
  | other {outs : List Obs} : Honest outs → d.stream <+: d'.stream →
      d'.stream ++ d'.arriving = d.stream ++ d.arriving → d'.taken = d.taken → Moves d d' outs
  | waits : readMessage d.stream = (d'.taken, none) → d'.stream = d.stream → d'.arriving = d.arriving → Moves d d' []
  | hands {outs : List Obs} {n : Nat} {m : Message} : readMessage d.stream = (n, some (.ok m)) →
      d'.stream = d.stream.drop n → d'.arriving = d.arriving → d'.taken = 0 → Honest outs →
      Moves d d' (.handed m :: outs)
  | fails {n : Nat} {e : FramingError} : readMessage d.stream = (n, some (.error e)) →
      d'.stream = d.stream.drop n → d'.arriving = d.arriving → d'.taken = 0 →
      Moves d d' [.out (.event (.closed (.framingError e)))]
  | drops {outs : List Obs} : d'.stream = d.stream.drop d.taken → d'.arriving = d.arriving → d'.taken = 0 →
      Honest outs → Moves d d' (.dropped (d.stream.take d.taken) :: outs)

theorem step_moves (h : step d a = some (d', os)) : Moves d d' os := by
  cases a with
  | start write =>
    simp only [step, Option.ite_none_right_eq_some, Option.some.injEq] at h
    obtain ⟨-, rfl, rfl⟩ := h
    exact .other (honest_give _ _ _ _ _) (List.prefix_refl _) rfl rfl
  | arrive n =>
    simp only [step, Option.some.injEq, Prod.mk.injEq] at h
    obtain ⟨rfl, rfl⟩ := h
    refine .other honest_nil (List.prefix_append _ _) ?_ rfl
    rw [List.append_assoc, List.take_append_drop]
  | queue c =>
    simp only [step, Option.ite_none_right_eq_some, Option.some.injEq] at h
    obtain ⟨-, rfl, rfl⟩ := h
    exact .other honest_nil (List.prefix_refl _) rfl rfl
  | read nonce clock write =>
    simp only [step, Option.ite_none_right_eq_some] at h
    obtain ⟨-, h⟩ := h
    split at h
    · rename_i n hr
      simp only [Option.some.injEq, Prod.mk.injEq] at h
      obtain ⟨rfl, rfl⟩ := h
      exact .waits hr rfl rfl
    · rename_i n m hr
      cases h
      exact .hands hr rfl rfl rfl (honest_give _ _ _ _ _)
    · rename_i n e hr
      cases h
      exact .fails hr rfl rfl rfl
  | tick now nonce write =>
    simp only [step, Option.ite_none_right_eq_some, Option.some.injEq] at h
    obtain ⟨-, rfl, rfl⟩ := h
    exact .drops rfl rfl rfl (honest_give _ _ _ _ _)
  | command write =>
    simp only [step, Option.ite_none_right_eq_some] at h
    obtain ⟨-, h⟩ := h
    split at h
    · cases h
    · cases h
      exact .drops rfl rfl rfl (honest_give _ _ _ _ _)
  | commandsClosed =>
    simp only [step, Option.ite_none_right_eq_some, Option.some.injEq, Prod.mk.injEq] at h
    obtain ⟨-, rfl, rfl⟩ := h
    exact .drops rfl rfl rfl honest_nil
  | lost e =>
    simp only [step, Option.ite_none_right_eq_some, Option.some.injEq] at h
    obtain ⟨-, rfl, rfl⟩ := h
    refine .other ?_ (List.prefix_refl _) rfl rfl
    simp [Session.close, Honest, handed, droppedBytes, Misframed, Written]

/-! ## What a run does to the stream -/

variable {m₀ : ConnectionMachine} {bytes : List UInt8}

theorem run_waiting (h : Run (system m₀ bytes) always tr d) :
    d.taken ≤ d.stream.length ∧ (readMessage (d.stream.take d.taken)).2 = none := by
  refine h.invariant (I := fun _ d => d.taken ≤ d.stream.length ∧ (readMessage (d.stream.take d.taken)).2 = none)
    (fun s h0 => ?_) (fun tr s a s' os _ hi _ hstep => ?_)
  · rw [h0]
    exact ⟨Nat.le_refl _, rfl⟩
  · cases step_moves hstep with
    | other _ hp _ ht =>
      obtain ⟨more, hm⟩ := hp
      rw [ht, ← hm, List.length_append, List.take_append_of_le_length hi.1]
      exact ⟨by omega, hi.2⟩
    | waits hr hs _ =>
      rw [hs, readMessage_pending hr, List.take_length, hr]
      exact ⟨Nat.le_refl _, rfl⟩
    | hands _ _ _ ht _ => rw [ht, List.take_zero]; exact ⟨Nat.zero_le _, rfl⟩
    | fails _ _ _ ht => rw [ht, List.take_zero]; exact ⟨Nat.zero_le _, rfl⟩
    | drops _ _ ht _ => rw [ht, List.take_zero]; exact ⟨Nat.zero_le _, rfl⟩

/-- Nothing is handed over that did not take its own frame off the stream. -/
theorem run_count (h : Run (system m₀ bytes) always tr d) :
    ((handed tr).flatMap frame).length + (droppedBytes tr).length + d.stream.length + d.arriving.length ≤
        bytes.length ∧
      ∀ m ∈ handed tr, (encode m).length ≤ maxFrameLen := by
  induction h with
  | init h0 =>
    rw [h0]
    simp [handed, droppedBytes, initial]
  | @step tr d a d' os hr _ hstep ih =>
    obtain ⟨hlen, hfit⟩ := ih
    have hw := run_waiting hr
    rw [handed_append, droppedBytes_append, List.flatMap_append, List.length_append, List.length_append]
    cases step_moves hstep with
    | other hh _ hc _ =>
      have hc := congrArg List.length hc
      rw [List.length_append, List.length_append] at hc
      rw [hh.1, hh.2.1]
      simp only [List.flatMap_nil, List.length_nil, List.append_nil]
      exact ⟨by omega, hfit⟩
    | waits _ hs ha =>
      rw [hs, ha]
      exact ⟨by simpa [handed, droppedBytes] using hlen, by simpa [handed] using hfit⟩
    | @hands outs n m hrd hs ha _ hh =>
      obtain ⟨hn, hle, hmax⟩ := readMessage_ok hrd
      have h1 : handed (.handed m :: outs) = [m] := by
        show m :: handed outs = [m]
        rw [hh.1]
      have h2 : droppedBytes (.handed m :: outs) = [] := hh.2.1
      rw [h1, h2, hs, ha, List.length_drop, List.flatMap_singleton, List.length_nil]
      refine ⟨by omega, fun m' hm' => ?_⟩
      rcases List.mem_append.mp hm' with hm' | hm'
      · exact hfit m' hm'
      · rw [List.mem_singleton] at hm'
        exact hm' ▸ hmax
    | @fails n e _ hs ha _ =>
      rw [hs, ha, List.length_drop]
      refine ⟨?_, by simpa [handed] using hfit⟩
      simp only [handed, droppedBytes, List.filterMap_cons, List.filterMap_nil, List.flatMap_cons, List.flatMap_nil,
        List.append_nil, List.length_nil]
      unfold handed droppedBytes at hlen
      omega
    | @drops outs hs ha _ hh =>
      have h1 : handed (.dropped (d.stream.take d.taken) :: outs) = [] := hh.1
      have h2 : droppedBytes (.dropped (d.stream.take d.taken) :: outs) = d.stream.take d.taken := by
        show d.stream.take d.taken ++ droppedBytes outs = _
        rw [hh.2.1, List.append_nil]
      rw [h1, h2, hs, ha, List.length_drop, List.length_take]
      simp only [List.flatMap_nil, List.length_nil, List.append_nil]
      exact ⟨by omega, hfit⟩

def Fit (msgs : List Message) : Prop := ∀ m ∈ msgs, (encode m).length ≤ maxFrameLen

/-- A read that is ready on the front of whole frames has read the first of them. -/
theorem read_front {n : Nat} {r : Except FramingError Message} {rest : List Message} (hfit : Fit rest)
    (hc : d.stream ++ d.arriving = rest.flatMap frame) (hr : readMessage d.stream = (n, some r)) :
    ∃ m rest', rest = m :: rest' ∧ r = .ok m ∧ d.stream.drop n ++ d.arriving = rest'.flatMap frame := by
  have h := readMessage_append hr d.arriving
  rw [hc] at h
  cases rest with
  | nil =>
    rw [List.flatMap_nil, readMessage_nil] at h
    cases h
  | cons m rest' =>
    rw [List.flatMap_cons, readMessage_frame (hfit m (by simp))] at h
    simp only [Prod.mk.injEq, Option.some.injEq] at h
    obtain ⟨rfl, rfl⟩ := h
    refine ⟨m, rest', rfl, rfl, ?_⟩
    rw [← List.drop_append_of_le_length (readMessage_ok hr).1, hc, List.flatMap_cons, List.drop_left]

variable {msgs : List Message}

theorem run_sound (h : Run (system m₀ (msgs.flatMap frame)) always tr d) (hfit : Fit msgs) (hk : Kept tr)
    (hw : Written tr) :
    ¬ Misframed tr ∧ ∃ rest, msgs = handed tr ++ rest ∧ d.stream ++ d.arriving = rest.flatMap frame := by
  induction h with
  | init h0 =>
    rw [h0]
    exact ⟨by simp [Misframed], msgs, rfl, rfl⟩
  | @step tr d a d' os hr _ hstep ih =>
    rw [kept_append] at hk
    rw [written_append] at hw
    obtain ⟨hm, rest, hmsgs, hc⟩ := ih hk.1 hw.1
    have hrest : Fit rest := fun m hm => hfit m (by rw [hmsgs]; simp [hm])
    rw [misframed_append, handed_append, not_or]
    cases step_moves hstep with
    | other hh _ hc' _ =>
      exact ⟨⟨hm, fun hmis => (hh.2.2.mp hmis) hw.2⟩, rest, by rw [hh.1, List.append_nil, hmsgs], by rw [hc', hc]⟩
    | waits _ hs ha =>
      refine ⟨⟨hm, by simp [Misframed]⟩, rest, ?_, by rw [hs, ha, hc]⟩
      rw [hmsgs]
      simp [handed]
    | @hands outs n m hrd hs ha _ hh =>
      obtain ⟨m', rest', rfl, he, hc'⟩ := read_front hrest hc hrd
      cases he
      have h1 : handed (.handed m :: outs) = [m] := by
        show m :: handed outs = [m]
        rw [hh.1]
      refine ⟨⟨hm, ?_⟩, rest', by rw [h1, hmsgs, List.append_assoc]; rfl, by rw [hs, ha, hc']⟩
      have hmis : Misframed (.handed m :: outs) → Misframed outs := by simp [Misframed]
      have hwr : Written outs := fun m' hm' => hw.2 m' (List.mem_cons_of_mem _ hm')
      exact fun hx => hh.2.2.mp (hmis hx) hwr
    | fails hrd _ _ _ =>
      obtain ⟨_, _, _, he, _⟩ := read_front hrest hc hrd
      cases he
    | @drops outs hs ha _ hh =>
      have htake : d.stream.take d.taken = [] := hk.2 _ (by simp)
      have h1 : handed (.dropped (d.stream.take d.taken) :: outs) = [] := hh.1
      have hmis : Misframed (.dropped (d.stream.take d.taken) :: outs) → Misframed outs := by simp [Misframed]
      have hwr : Written outs := fun m' hm' => hw.2 m' (List.mem_cons_of_mem _ hm')
      refine ⟨⟨hm, fun hx => hh.2.2.mp (hmis hx) hwr⟩, rest, by rw [h1, List.append_nil, hmsgs], ?_⟩
      have hdrop : d.stream.drop d.taken = d.stream := by
        have := List.take_append_drop d.taken d.stream
        rwa [htake, List.nil_append] at this
      rw [hs, ha, hdrop, hc]

/-- Everything arrived and the pending read has taken all of it. -/
def Drained (d : Drive) : Prop := d.arriving = [] ∧ d.taken = d.stream.length

instance : Decidable (Drained d) := inferInstanceAs (Decidable (_ ∧ _))

theorem run_drained (h : Run (system m₀ (msgs.flatMap frame)) always tr d) (hfit : Fit msgs) (hk : Kept tr)
    (hw : Written tr) (hd : Drained d) : handed tr = msgs := by
  obtain ⟨-, rest, hmsgs, hc⟩ := run_sound h hfit hk hw
  have hwait := (run_waiting h).2
  rw [hd.2, List.take_length] at hwait
  rw [hd.1, List.append_nil] at hc
  cases rest with
  | nil => rw [hmsgs, List.append_nil]
  | cons m rest =>
    have hm : (encode m).length ≤ maxFrameLen := hfit m (by rw [hmsgs]; simp)
    rw [hc, List.flatMap_cons, readMessage_frame hm] at hwait
    cases hwait

/-- Whoever hands over all that was sent has dropped nothing. -/
theorem run_kept (h : Run (system m₀ (msgs.flatMap frame)) always tr d) (hh : handed tr = msgs) :
    Kept tr ∧ Fit msgs := by
  obtain ⟨hlen, hfit⟩ := run_count h
  rw [hh] at hlen hfit
  refine ⟨kept_iff.mpr (List.eq_nil_of_length_eq_zero (by omega)), hfit⟩

theorem misframed_of_unwritten (h : Run (system m₀ bytes) always tr d) (hw : ¬ Written tr) : Misframed tr := by
  induction h with
  | init _ => exact absurd (by simp [Written]) hw
  | @step tr d a d' os hr _ hstep ih =>
    rw [written_append, not_and_or] at hw
    rw [misframed_append]
    rcases hw with hw | hw
    · exact Or.inl (ih hw)
    · refine Or.inr ?_
      have hcons : ∀ o outs, Honest outs → (∀ m, o ≠ .out (.unsent m)) → ¬ Written (o :: outs) →
          Misframed (o :: outs) := by
        intro o outs hh ho hn
        have : ¬ Written outs := fun hx => hn fun m hm => by
          rcases List.mem_cons.mp hm with hm | hm
          · exact ho m hm.symm
          · exact hx m hm
        obtain ⟨e, he⟩ := hh.2.2.mpr this
        exact ⟨e, List.mem_cons_of_mem _ he⟩
      cases step_moves hstep with
      | other hh _ _ _ => exact hh.2.2.mpr hw
      | waits _ _ _ => exact absurd (by simp [Written]) hw
      | hands _ _ _ _ hh => exact hcons _ _ hh (by simp) hw
      | fails _ _ _ _ => exact ⟨_, List.mem_singleton_self _⟩
      | drops _ _ _ hh => exact hcons _ _ hh (by simp) hw

/-- The machine is handed what the peer sent, and no framing error is reported,
exactly when no branch wins over a read that has consumed bytes. -/
theorem run_hands_over (hf : writeMessages msgs = some bytes) (h : Run (system m₀ bytes) always tr d) :
    (Kept tr ∧ Fit msgs ∧ Written tr → handed tr <+: msgs ∧ ¬ Misframed tr) ∧
      (Drained d → (handed tr = msgs ∧ ¬ Misframed tr ↔ Kept tr ∧ Fit msgs ∧ Written tr)) := by
  obtain ⟨-, rfl⟩ := writeMessages_eq hf
  constructor
  · rintro ⟨hk, hfit, hw⟩
    obtain ⟨hm, rest, hmsgs, -⟩ := run_sound h hfit hk hw
    exact ⟨⟨rest, hmsgs.symm⟩, hm⟩
  · intro hd
    constructor
    · rintro ⟨hh, hm⟩
      obtain ⟨hk, hfit⟩ := run_kept h hh
      refine ⟨hk, hfit, ?_⟩
      by_contra hw
      exact hm (misframed_of_unwritten h hw)
    · rintro ⟨hk, hfit, hw⟩
      exact ⟨run_drained h hfit hk hw hd, (run_sound h hfit hk hw).1⟩

end

def pc : ConnectionMachine := .new ⟨Bytes.fill 32 1, "pc", []⟩ (secs 15) none

def pinged : List Message := [.ping ⟨0⟩]

def pingBytes : List UInt8 := [2, 0, 0, 0, 1, 0]

/-- The frame arrives in two parts, with a tick before the first and after the second. -/
def inParts : List Act :=
  [.start true, .tick 0 0 true, .arrive 3, .read 0 0 true, .arrive 3, .read 0 0 true, .tick 1 0 true]

theorem inParts_enabled : (exec (system pc pingBytes) anyway [] (initial pc pingBytes) inParts).isSome = true := by
  decide

theorem run_hands_over_inParts :
    let r := (exec (system pc pingBytes) anyway [] (initial pc pingBytes) inParts).get inParts_enabled
    handed r.1 = pinged ∧ ¬ Misframed r.1 ↔ Kept r.1 ∧ Fit pinged ∧ Written r.1 :=
  (run_hands_over (by decide) (run_of_anyway rfl inParts_enabled)).2 (by decide)

/-- The tick fires while the read holds the first byte of the header. -/
def tickInside : List Act := [.start true, .arrive 1, .read 0 0 true, .tick 0 0 true, .arrive 5, .read 0 0 true]

theorem tickInside_enabled :
    (exec (system pc pingBytes) anyway [] (initial pc pingBytes) tickInside).isSome = true := by
  decide

/-- A ping of six bytes is read as a frame of sixteen megabytes. -/
theorem tickInside_misframed : writeMessages pinged = some pingBytes ∧
    ∃ tr d, Run (system pc pingBytes) always tr d ∧ handed tr = [] ∧ d.arriving = [] ∧
      .out (.event (.closed (.framingError (.frameTooLarge 16777216)))) ∈ tr ∧ Misframed tr :=
  ⟨by decide, _, _, run_of_anyway rfl tickInside_enabled, by decide, by decide, by decide,
    .frameTooLarge 16777216, by decide⟩

end Drive

end PenguinSync
