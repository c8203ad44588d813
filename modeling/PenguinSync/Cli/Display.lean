import PenguinSync.Cli.Refresh

/-!
# The code on screen

The TUI keeps the code it shows and the daemon keeps one token, and no step
touches both. What keeps them together is that the TUI takes its code down, or
puts up another one, whenever the daemon's token is used up or replaced. It does
so when a confirmation is accepted and when a code has run out; it does not when
a confirmation is turned down.
-/

namespace PenguinSync

open Lts

namespace Daemon

/-! ## The daemon's side -/

/-- A token has been redeemed, and the confirmation has no answer yet. -/
def Orchestrator.asking : Orchestrator → Bool
  | .handshake _ .pairingRequested | .handshake _ .awaitConfirmation | .handshake _ (.awaiting _ _ none) => true
  | _ => false

def Orchestrator.waiting : Orchestrator → Bool
  | .handshake _ (.awaiting _ _ none) => true
  | _ => false

/-- The token stays as it is and a confirmation unanswered, or the token is
redeemed and the confirmation begins, or waiting for it is given up. -/
inductive PromptMove (s s' : Daemon) : Act → Prop
  | same {a : Act} : s'.currentToken = s.currentToken →
      (Orchestrator.asking s.orchestrator = true → Orchestrator.asking s'.orchestrator = true) → PromptMove s s' a
  | redeemed {a : Act} (t : PairingToken) : s.currentToken = some t →
      s'.currentToken = some { t with redeemed := true } → Orchestrator.asking s'.orchestrator = true →
      PromptMove s s' a
  | timedOut (ok : Bool) (target : DeviceId) : Orchestrator.waiting s.orchestrator = true →
      s'.currentToken = s.currentToken → PromptMove s s' (.orchestrate ok target)

section
variable {cfg : Config} {s s' : Daemon} {a : Act} {os : List Obs}

theorem HandshakeMove.prompt {h : Handling} {pc : HandshakePc} {ok : Bool} (ho : s.orchestrator = .handshake h pc)
    (hm : HandshakeMove s h ok pc s' os) (target : DeviceId) : PromptMove s s' (.orchestrate ok target) := by
  have hquiet : Orchestrator.asking (.handshake h pc) = false → s'.currentToken = s.currentToken →
      PromptMove s s' (.orchestrate ok target) := by
    intro hask htoken
    refine .same htoken fun h => ?_
    rw [ho, hask] at h
    cases h
  cases hm with
  | redeems presented t t' ht hr =>
    rw [(PairingToken.redeem_ok hr).2.2.2]
    exact .redeemed t ht rfl rfl
  | asks => exact .same rfl fun _ => rfl
  | registers => exact .same rfl fun _ => rfl
  | timedOut ch deadline =>
    refine .timedOut ok target ?_ rfl
    rw [ho]
    rfl
  | persists => exact hquiet rfl (by rw [persistState_eq]; rfl)
  | _ => exact hquiet rfl rfl

/-- What a step does that neither sets the token nor answers. -/
theorem prompt_step (h : step cfg s a = some (s', os)) (hset : ∀ k addrs, a ≠ .setToken k addrs)
    (hconfirm : ∀ hex accept, a ≠ .confirmPairing hex accept) : PromptMove s s' a := by
  cases ha : a.task with
  | net =>
    obtain ⟨⟨_, _, _, rfl⟩, -⟩ := net_frame h ha
    exact .same rfl id
  | clipboard =>
    obtain ⟨⟨_, _, _, _, _, _, rfl⟩, -, -⟩ := clipboard_frame h ha
    exact .same rfl id
  | bus =>
    cases a with
    | startPairing random =>
      cases h
      exact .same rfl id
    | openWindow k =>
      simp only [step, openWindow] at h
      split at h
      · cases h
        exact .same rfl id
      · cases h
    | setToken k addrs => exact absurd rfl (hset k addrs)
    | confirmPairing hex accept => exact absurd rfl (hconfirm hex accept)
    | unpair hex =>
      simp only [step, unpair] at h
      split at h
      · cases h
        exact .same rfl id
      · cases h
        exact .same rfl id
    | unpairStep k ok =>
      cases unpairStep_move h with
      | unpin _ _ _ hs | remove _ _ _ hs | persist _ _ _ hs | removeObject _ _ _ hs =>
        rw [hs]
        exact .same rfl id
    | restore =>
      obtain ⟨⟨_, _, rfl⟩, -⟩ := restore_frame h
      exact .same rfl id
    | _ => cases ha
  | orchestrator =>
    cases a with
    | orchestrate ok target =>
      cases orchestrate_turn h with
      | taken i e rest ho _ hd =>
        obtain ⟨⟨_, _, _, rfl⟩, -⟩ := dispatch_frame hd
        refine .same rfl fun hask => ?_
        rw [ho] at hask
        cases hask
      | handshake hh pc ho hs => exact (handshakeStep_move hs).prompt ho target
      | received r pc ho hr =>
        obtain ⟨⟨_, _, _, _, _, rfl, -⟩, -, -⟩ := receivedStep_frame hr
        refine .same rfl fun hask => ?_
        rw [ho] at hask
        cases hask
      | closed id pc ho hcl =>
        subst hcl
        refine .same (by cases pc <;> rfl) fun hask => ?_
        rw [ho] at hask
        cases hask
    | _ => cases ha

/-- The answer for this id is the one the orchestrator waits for. -/
def answers (s : Daemon) (deviceId : String) : Bool :=
  match fromHex deviceId, s.orchestrator with
  | some id, .handshake _ (.awaiting channel _ none) => s.pendingConfirmations.lookup id = some channel
  | _, _ => false

/-- An answer to something else leaves a confirmation unanswered. -/
theorem confirmPairing_asking {hex : String} {accept : Bool} (hask : Orchestrator.asking s.orchestrator = true)
    (hother : s.answers hex = false) : Orchestrator.asking (s.confirmPairing hex accept).1.orchestrator = true := by
  unfold confirmPairing
  split
  · exact hask
  · rename_i id hid
    split
    · exact hask
    · rename_i channel hchannel
      rcases answer_cases channel accept s.orchestrator with hsame | ⟨h, deadline, ho, -⟩
      · simp only [hsame]
        exact hask
      · simp [answers, hid, ho, hchannel] at hother

theorem confirmPairing_token (s : Daemon) (hex : String) (accept : Bool) :
    (s.confirmPairing hex accept).1.currentToken = s.currentToken := by
  unfold confirmPairing
  split
  · rfl
  · split
    · rfl
    · rfl

theorem setToken_sets {j : Nat} {addrs : List SocketAddr} (h : s.setToken cfg j addrs = some (s', os)) :
    ∃ random now qr fingerprint, s'.currentToken = some (.issue random now) ∧ s'.now = s.now ∧
      os = [.tokenSet random now, .startedPairing qr fingerprint] ∧ qr.token = random := by
  unfold setToken at h
  split at h
  · cases h
    exact ⟨_, _, _, _, rfl, rfl, rfl, rfl⟩
  · cases h

end

end Daemon

namespace Cli

open Daemon (Orchestrator.asking Orchestrator.waiting)

/-! ## What is shown -/

def remainingSecs (issuedAt now : Time) : Nat := (tokenTtl - (now - issuedAt)) / secs 1

theorem remainingSecs_anti {issuedAt now now' : Time} (h : now ≤ now') :
    remainingSecs issuedAt now' ≤ remainingSecs issuedAt now :=
  Nat.div_le_div_right (Nat.sub_le_sub_left (Nat.sub_le_sub_right h _) _)

/-- The code that a reply has brought. -/
def TuiPc.brought : TuiPc → Option QrPayload
  | .replied _ uri _ => some uri
  | _ => none

def TuiPc.calling : TuiPc → Bool
  | .pairing _ | .replied .. => true
  | _ => false

theorem TuiPc.brought_none {pc : TuiPc} (h : pc.calling = false) : pc.brought = none := by
  cases pc with
  | replied => cases h
  | _ => rfl

namespace Tui

/-- The code on screen while its countdown runs. -/
def counting (t : Tui) (now : Time) : Option PairingDisplay :=
  t.pairingDisplay.filter fun p => 0 < remainingSecs p.issuedAt now

def code (t : Tui) (now : Time) : Option QrPayload := t.pc.brought.or ((t.counting now).map PairingDisplay.uri)

end Tui

namespace Desktop

/-- Nothing is under way between the daemon and TUI 0. -/
structure Settled (d : Desktop) : Prop where
  sent : d.sent = []
  calls : d.calls = []
  called : (d.tuis 0).pc.calling = false
  asked : Orchestrator.asking d.daemon.orchestrator = false
  confirmation : (d.tuis 0).confirmation = none

/-- The code on screen is the daemon's token, and can be redeemed. -/
def Accepted (d : Desktop) : Prop :=
  ∀ p, (d.tuis 0).pairingDisplay = some p → 0 < remainingSecs p.issuedAt d.daemon.now → d.Settled →
    ∃ t, d.daemon.currentToken = some t ∧ t.bytes = p.uri.token ∧ t.redeemed = false

def alone : Act → Bool
  | .daemon (.startPairing _) | .daemon (.confirmPairing _ _) => false
  | .start k | .key k _ | .signal k | .tick k | .listed k | .receive k _ | .fail k | .answered k _ | .exit k => k = 0
  | _ => true

def used (s : Daemon) (t : Tui) : Bool := (t.code s.now).isSome && s.currentToken.any (·.redeemed)

/-- No step leaves a code on screen that the daemon would refuse. -/
def careful (d : Desktop) : Act → Bool
  | .answered _ reached =>
    -- a used code stays on screen where its confirmation is turned down, unless the daemon waits on
    match (d.tuis 0).pc with
    | .confirming deviceId false =>
      !used d.daemon (d.tuis 0) ||
        Orchestrator.asking d.daemon.orchestrator && !(reached && d.daemon.answers deviceId)
    | _ => true
  | .daemon (.orchestrate _ _) =>
    -- the daemon gives up before the TUI has asked
    !Orchestrator.waiting d.daemon.orchestrator || !used d.daemon (d.tuis 0) || (d.tuis 0).confirmation.isSome
  | .setToken j _ =>
    -- a call that nobody waits for sets the token
    match d.calls[j]? with
    | some ⟨none, _⟩ => ((d.tuis 0).code d.daemon.now).isNone
    | _ => true
  | .receive _ false =>
    -- a code that cannot be rendered leaves the one before it
    match (d.tuis 0).pc with
    | .replied false _ _ => ((d.tuis 0).counting d.daemon.now).isNone
    | _ => true
  | _ => true

/-- The code is the daemon's token; once this is redeemed, the confirmation is
unanswered or open on screen. -/
def Backed (s : Daemon) (t : Tui) : Prop :=
  ∀ uri, t.code s.now = some uri → ∃ token, s.currentToken = some token ∧ token.bytes = uri.token ∧
    (token.redeemed = true → Orchestrator.asking s.orchestrator = true ∨ t.confirmation.isSome = true)

/-- Only TUI 0 waits for replies, and its code is backed. -/
structure Shows (d : Desktop) : Prop where
  sent : ∀ c ∈ d.sent, ∀ k, c.tui = some k → k = 0
  calls : ∀ c ∈ d.calls, ∀ k, c.tui = some k → k = 0
  backed : Backed d.daemon (d.tuis 0)

/-! ## Codes -/

section
variable {s s' : Daemon} {t t' : Tui}

theorem code_brought {uri : QrPayload} (hpc : t.pc.brought = some uri) (now : Time) : t.code now = some uri := by
  unfold Tui.code
  rw [hpc]
  rfl

theorem code_counting (hpc : t.pc.brought = none) (now : Time) :
    t.code now = (t.counting now).map PairingDisplay.uri := by
  unfold Tui.code
  rw [hpc, Option.none_or]

theorem code_none (hpc : t.pc.brought = none) (hdisplay : t.pairingDisplay = none) (now : Time) :
    t.code now = none := by
  rw [code_counting hpc, Tui.counting, hdisplay]
  rfl

theorem counting_later {now now' : Time} (h : now ≤ now') {p : PairingDisplay} (hp : t.counting now' = some p) :
    t.counting now = some p := by
  obtain ⟨hp, hleft⟩ := Option.filter_eq_some_iff.mp hp
  exact Option.filter_eq_some_iff.mpr
    ⟨hp, decide_eq_true (Nat.lt_of_lt_of_le (of_decide_eq_true hleft) (remainingSecs_anti h))⟩

theorem code_later {now now' : Time} (h : now ≤ now') {uri : QrPayload} (hcode : t.code now' = some uri) :
    t.code now = some uri := by
  cases hpc : t.pc.brought with
  | some uri' =>
    rw [code_brought hpc] at hcode ⊢
    exact hcode
  | none =>
    rw [code_counting hpc] at hcode ⊢
    obtain ⟨p, hp, rfl⟩ := Option.map_eq_some_iff.mp hcode
    rw [counting_later h hp]
    rfl

theorem Backed.of_none (h : t'.code s'.now = none) : Backed s' t' := by
  intro uri hcode
  rw [h] at hcode
  cases hcode

/-- The code stays or goes, and a confirmation that was open stays so. -/
theorem Backed.mono (h : Backed s t) (hcode : ∀ uri, t'.code s'.now = some uri → t.code s.now = some uri)
    (htoken : s'.currentToken = s.currentToken)
    (hopen : Orchestrator.asking s.orchestrator = true ∨ t.confirmation.isSome = true →
      Orchestrator.asking s'.orchestrator = true ∨ t'.confirmation.isSome = true) : Backed s' t' := by
  intro uri huri
  obtain ⟨token, htok, hbytes, hred⟩ := h uri (hcode uri huri)
  exact ⟨token, htoken.trans htok, hbytes, fun hr => hopen (hred hr)⟩

theorem Backed.unused (h : Backed s t) (hcode : ∀ uri, t'.code s'.now = some uri → t.code s.now = some uri)
    (htoken : s'.currentToken = s.currentToken)
    (hused : used s t = false) : Backed s' t' := by
  intro uri huri
  obtain ⟨token, htok, hbytes, -⟩ := h uri (hcode uri huri)
  refine ⟨token, htoken.trans htok, hbytes, fun hred => ?_⟩
  rw [used, hcode uri huri, htok, Option.any_some, hred] at hused
  cases hused

/-- A code that has nothing to do with a reply stays on screen or goes. -/
theorem Backed.display (h : Backed s t) (hpc : t.pc.brought = none) (hpc' : t'.pc.brought = none)
    (hdisplay : t'.pairingDisplay = none ∨ t'.pairingDisplay = t.pairingDisplay)
    (hopen : t.confirmation.isSome = true → t'.confirmation.isSome = true) : Backed s t' := by
  rcases hdisplay with hnone | hsame
  · exact .of_none (code_none hpc' hnone _)
  · refine h.mono (fun uri huri => ?_) rfl (Or.imp_right hopen)
    rw [code_counting hpc', Tui.counting, hsame] at huri
    rw [code_counting hpc, Tui.counting, huri]

theorem Backed.hear (h : Backed s t) (signals : List PendingConfirmation) : Backed s (t.hear signals) := by
  unfold Tui.hear
  split
  · exact h
  · exact h

end

/-! ## One step -/

section
variable {cfg : Config} {d d' : Desktop} {a : Act} {os tr : List Obs}

theorem Backed.daemon {s s' : Daemon} {t : Tui} {a : Daemon.Act} {os : List PenguinSync.Obs} (h : Backed s t)
    (hs : s.step cfg a = some (s', os)) (hset : ∀ k addrs, a ≠ .setToken k addrs)
    (hconfirm : ∀ hex accept, a ≠ .confirmPairing hex accept)
    (hcareful : ∀ ok target, a = .orchestrate ok target → Orchestrator.waiting s.orchestrator = true →
      used s t = false ∨ t.confirmation.isSome = true) :
    Backed s' t := by
  have hcode : ∀ uri, t.code s'.now = some uri → t.code s.now = some uri := fun _ => code_later (Daemon.now_mono hs)
  cases Daemon.prompt_step hs hset hconfirm with
  | same htoken hask => exact h.mono hcode htoken (Or.imp_left hask)
  | redeemed token htok htok' hask =>
    intro uri huri
    obtain ⟨token', htok'', hbytes, -⟩ := h uri (hcode uri huri)
    obtain rfl : token = token' := Option.some.inj (htok.symm.trans htok'')
    exact ⟨_, htok', hbytes, fun _ => Or.inl hask⟩
  | timedOut ok target hwaiting htoken =>
    rcases hcareful ok target rfl hwaiting with hused | hopen
    · exact h.unused hcode htoken hused
    · exact h.mono hcode htoken fun _ => Or.inr hopen

theorem Backed.handleKey {s : Daemon} {t : Tui} (h : Backed s t) (hpc : t.pc = .select) (key : Key) :
    Backed s (t.handleKey key) := by
  have hselect : t.pc.brought = none := by rw [hpc]; rfl
  unfold Tui.handleKey
  split
  · cases key with
    | y | n | esc => exact h.display hselect rfl (Or.inr rfl) id
    | q | p => exact h
  · split
    · exact h.display hselect hselect (Or.inl rfl) id
    · cases key with
      | q | esc => exact .of_none (code_none rfl rfl _)
      | p => exact h.display hselect rfl (Or.inr rfl) id
      | y | n => exact h

theorem Backed.answered {s s' : Daemon} {t : Tui} (h : Backed s t) {hex : String} {accept : Bool}
    (hpc : t.pc = .confirming hex accept) (htoken : s'.currentToken = s.currentToken) (hnow : s'.now = s.now)
    (hcareful : accept = false → used s t = false ∨ Orchestrator.asking s'.orchestrator = true) : Backed s' (t.answered accept) := by
  cases accept with
  | true => exact .of_none (code_none rfl rfl _)
  | false =>
    have hconfirming : t.pc.brought = none := by rw [hpc]; rfl
    have hcode : ∀ uri, (t.answered false).code s'.now = some uri → t.code s.now = some uri := by
      intro uri huri
      rw [hnow, code_counting rfl] at huri
      rw [code_counting hconfirming]
      exact huri
    rcases hcareful rfl with hused | hask
    · exact h.unused hcode htoken hused
    · exact h.mono hcode htoken fun _ => Or.inl hask

theorem Shows.tui {t : Tui} {sent calls : List Call} (hsent : ∀ c ∈ sent, ∀ k, c.tui = some k → k = 0)
    (hcalls : ∀ c ∈ calls, ∀ k, c.tui = some k → k = 0) (hb : Backed d.daemon t) :
    Shows { d.setTui 0 t with sent, calls } := by
  have hself : (d.setTui 0 t).tuis 0 = t := setTui_self
  refine ⟨hsent, hcalls, ?_⟩
  change Backed d.daemon ((d.setTui 0 t).tuis 0)
  rw [hself]
  exact hb

theorem callers_forget {calls : List Call} {j : Nat} (h : ∀ c ∈ calls, ∀ k, c.tui = some k → k = 0) :
    ∀ c ∈ calls.map fun c => if c.tui = some j then { c with tui := none } else c, ∀ k, c.tui = some k → k = 0 := by
  intro c hc k hk
  obtain ⟨x, hx, rfl⟩ := List.mem_map.mp hc
  split at hk
  · cases hk
  · exact h x hx k hk

theorem callers_append {calls : List Call} {c : Call} (h : ∀ c ∈ calls, ∀ k, c.tui = some k → k = 0)
    (hc : ∀ k, c.tui = some k → k = 0) : ∀ x ∈ calls ++ [c], ∀ k, x.tui = some k → k = 0 := by
  intro x hx
  rcases List.mem_append.mp hx with hx | hx
  · exact h x hx
  · rw [List.mem_singleton.mp hx]
    exact hc

theorem callers_erase {calls : List Call} {i : Nat} (h : ∀ c ∈ calls, ∀ k, c.tui = some k → k = 0) :
    ∀ c ∈ calls.eraseIdx i, ∀ k, c.tui = some k → k = 0 := fun c hc => h c (List.mem_of_mem_eraseIdx hc)

/-- The reply to a call of TUI 0 brings the token that was set; any other call finds no code to replace. -/
theorem Shows.setToken (hi : Shows d) {j : Nat} {addrs : List SocketAddr} {call : Call} {s : Daemon}
    {os : List PenguinSync.Obs} (hcall : d.calls[j]? = some call) (hs : d.daemon.setToken cfg j addrs = some (s, os))
    (hcareful : call.tui = none → (d.tuis 0).code d.daemon.now = none) :
    Shows (({ d with daemon := s, calls := d.calls.eraseIdx j } : Desktop).reply call os) := by
  obtain ⟨random, now, qr, fingerprint, htoken, hnow, rfl, hqr⟩ := Daemon.setToken_sets hs
  have hcalls := callers_erase (i := j) hi.calls
  unfold Desktop.reply
  cases htui : call.tui with
  | none =>
    refine ⟨hi.sent, hcalls, .of_none ?_⟩
    change (d.tuis 0).code s.now = none
    rw [hnow]
    exact hcareful htui
  | some k =>
    obtain rfl : k = 0 := hi.calls call (List.mem_of_getElem? hcall) k htui
    refine Shows.tui (d := { d with daemon := s, calls := d.calls.eraseIdx j }) hi.sent hcalls fun uri huri => ?_
    rw [code_brought rfl, Option.some.injEq] at huri
    subst huri
    exact ⟨_, htoken, hqr.symm, nofun⟩

theorem Shows.step (hi : Shows d) (ha : alone a = true) (hc : d.careful a = true)
    (h : step cfg d a = some (d', os)) : Shows d' := by
  cases step_move h with
  | @daemon a s os' hstart hset hs =>
    have hconfirm : ∀ hex accept, a ≠ .confirmPairing hex accept := by
      rintro hex accept rfl
      cases ha
    refine ⟨hi.sent, hi.calls, Backed.hear (hi.backed.daemon hs hset hconfirm ?_) _⟩
    rintro ok target rfl hwaiting
    simpa [careful, hwaiting] using hc
  | asked random => cases ha
  | begun i random hcall =>
    exact ⟨callers_erase hi.sent, callers_append hi.calls (hi.sent _ (List.mem_of_getElem? hcall)), hi.backed⟩
  | @set j addrs call s os' hcall hs =>
    refine hi.setToken hcall hs fun hnone => ?_
    obtain ⟨tui, stale⟩ := call
    cases hnone
    simpa [careful, hcall] using hc
  | lost i _ => exact ⟨callers_erase hi.sent, hi.calls, hi.backed⟩
  | started k _ =>
    obtain rfl : k = 0 := of_decide_eq_true ha
    exact Shows.tui hi.sent hi.calls (.of_none (code_none rfl rfl _))
  | pressed k key hpc =>
    obtain rfl : k = 0 := of_decide_eq_true ha
    refine Shows.tui ?_ hi.calls (hi.backed.handleKey hpc key)
    split
    · exact callers_append hi.sent fun _ hk => (Option.some.inj hk).symm
    · exact hi.sent
  | heard k hpc _ =>
    obtain rfl : k = 0 := of_decide_eq_true ha
    have hselect : (d.tuis 0).pc.brought = none := by rw [hpc]; rfl
    exact Shows.tui hi.sent hi.calls (hi.backed.display hselect hselect (Or.inr rfl) fun _ => rfl)
  | ticked k hpc =>
    obtain rfl : k = 0 := of_decide_eq_true ha
    have hselect : (d.tuis 0).pc.brought = none := by rw [hpc]; rfl
    exact Shows.tui hi.sent hi.calls (hi.backed.display hselect rfl (Or.inr rfl) id)
  | regenerates k hpc _ =>
    obtain rfl : k = 0 := of_decide_eq_true ha
    have hticked : (d.tuis 0).pc.brought = none := by rw [hpc]; rfl
    exact Shows.tui (callers_append hi.sent fun _ hk => (Option.some.inj hk).symm) hi.calls
      (hi.backed.display hticked rfl (Or.inr rfl) id)
  | leaves k hpc _ =>
    obtain rfl : k = 0 := of_decide_eq_true ha
    have hticked : (d.tuis 0).pc.brought = none := by rw [hpc]; rfl
    exact Shows.tui hi.sent hi.calls (hi.backed.display hticked rfl (Or.inr rfl) id)
  | shown k hpc =>
    obtain rfl : k = 0 := of_decide_eq_true ha
    -- the code that was on its way is the one on screen
    refine Shows.tui hi.sent hi.calls (hi.backed.mono (fun uri' huri => ?_) rfl id)
    rw [code_counting rfl] at huri
    obtain ⟨p, hp, rfl⟩ := Option.map_eq_some_iff.mp huri
    obtain ⟨hp, -⟩ := Option.filter_eq_some_iff.mp hp
    cases hp
    exact code_brought (by rw [hpc]; rfl) _
  | @unrendered k refresh uri fingerprint hpc =>
    obtain rfl : k = 0 := of_decide_eq_true ha
    refine Shows.tui hi.sent hi.calls (.of_none ?_)
    cases refresh with
    | true => exact code_none rfl rfl _
    | false =>
      have hnone : (d.tuis 0).counting d.daemon.now = none := by simpa [careful, hpc] using hc
      rw [code_counting rfl]
      exact congrArg (Option.map PairingDisplay.uri) hnone
  | @failed k refresh hpc =>
    obtain rfl : k = 0 := of_decide_eq_true ha
    refine Shows.tui (callers_forget hi.sent) (callers_forget hi.calls)
      (hi.backed.display (by rw [hpc]; rfl) (by cases refresh <;> rfl) ?_ id)
    cases refresh with
    | true => exact Or.inl rfl
    | false => exact Or.inr rfl
  | @reached k hex accept hpc =>
    obtain rfl : k = 0 := of_decide_eq_true ha
    refine Shows.tui (d := { d with daemon := (d.daemon.confirmPairing hex accept).1 }) hi.sent hi.calls
      (hi.backed.answered hpc (Daemon.confirmPairing_token ..) (confirmPairing_now ..) ?_)
    rintro rfl
    have hc : used d.daemon (d.tuis 0) = false ∨ Orchestrator.asking d.daemon.orchestrator = true ∧
        d.daemon.answers hex = false := by
      simpa [careful, hpc] using hc
    rcases hc with hused | ⟨hask, hother⟩
    · exact Or.inl hused
    · exact Or.inr (Daemon.confirmPairing_asking hask hother)
  | @unreached k hex accept hpc =>
    obtain rfl : k = 0 := of_decide_eq_true ha
    refine Shows.tui hi.sent hi.calls (hi.backed.answered hpc rfl rfl ?_)
    rintro rfl
    simpa [careful, hpc] using hc
  | exited k _ =>
    obtain rfl : k = 0 := of_decide_eq_true ha
    exact Shows.tui (callers_forget hi.sent) (callers_forget hi.calls) (.of_none (code_none rfl rfl _))

/-! ## Every run -/

variable {file : Option PersistedState} {clipboard : Content}

/-- With TUI 0 as its only client, and as long as no used code is left on screen,
the daemon accepts the code that is on screen when nothing is under way. -/
theorem run_display
    (h : Run (system cfg file clipboard) (fun _ d a => alone a = true ∧ d.careful a = true) tr d) : d.Accepted := by
  have hi : Shows d := by
    refine h.invariant (I := fun _ d => Shows d) (fun d h0 => ?_) (fun _ _ _ _ _ _ hi hc hs => hi.step hc.1 hc.2 hs)
    rw [h0]
    exact ⟨List.forall_mem_nil _, List.forall_mem_nil _, .of_none (code_none rfl rfl _)⟩
  intro p hp hleft hsettled
  have hcode : (d.tuis 0).code d.daemon.now = some p.uri := by
    have hcounting : (d.tuis 0).counting d.daemon.now = some p :=
      Option.filter_eq_some_iff.mpr ⟨hp, decide_eq_true hleft⟩
    rw [code_counting (TuiPc.brought_none hsettled.called), hcounting]
    rfl
  obtain ⟨token, htoken, hbytes, hred⟩ := hi.backed p.uri hcode
  refine ⟨token, htoken, hbytes, Bool.eq_false_iff.mpr fun hr => ?_⟩
  rcases hred hr with hask | hopen
  · rw [hsettled.asked] at hask
    cases hask
  · rw [hsettled.confirmation] at hopen
    cases hopen

end

/-! ## One phone -/

def asks : List Act :=
  shows ++ (Daemon.Sample.connect 0 (Daemon.Sample.addr 2) Daemon.Sample.phoneKey ++
    Daemon.Sample.greet 0 Daemon.Sample.phone (some Daemon.Sample.token) ++ Daemon.Sample.turns 5).map .daemon ++
    [.signal 0]

def accepts : List Act :=
  asks ++ [.key 0 .y, .answered 0 true] ++ (Daemon.Sample.turns 9).map .daemon ++
    [.key 0 .p, .begin 0 (Bytes.fill tokenLen 9), .daemon (.openWindow 0), .setToken 0 [], .receive 0 true]

open Daemon.Sample in
theorem run_display_accepts : ∃ tr d p,
    Run (system cfg none empty) (fun _ d a => alone a = true ∧ d.careful a = true) tr d ∧
      (d.tuis 0).pairingDisplay = some p ∧ p.uri.token = Bytes.fill tokenLen 9 ∧ d.Accepted := by
  have hrun : (exec (system cfg none empty) (fun _ d a => alone a && d.careful a) [] (new (.initial none empty))
      accepts).any (fun r => (r.2.tuis 0).pairingDisplay.any fun p => p.uri.token = Bytes.fill tokenLen 9) = true := by
    decide +kernel
  obtain ⟨⟨tr, d⟩, he, hshown⟩ := (Option.any_eq_true _ _).mp hrun
  obtain ⟨p, hp, htoken⟩ := (Option.any_eq_true _ _).mp hshown
  have hr : Run (system cfg none empty) (fun _ d a => alone a = true ∧ d.careful a = true) tr d :=
    .exec (fun _ _ _ h => Bool.and_eq_true_iff.mp h) (.init rfl) he
  exact ⟨tr, d, p, hr, hp, of_decide_eq_true htoken, run_display hr⟩

def rejects : List Act := asks ++ [.key 0 .n, .answered 0 true] ++ (Daemon.Sample.turns 1).map .daemon

/-- Nothing is under way, and the code on screen has been used. -/
def leftOver (d : Desktop) : Bool :=
  d.sent.isEmpty && d.calls.isEmpty && !(d.tuis 0).pc.calling && !Orchestrator.asking d.daemon.orchestrator &&
    (d.tuis 0).confirmation.isNone && ((d.tuis 0).counting d.daemon.now).isSome &&
    d.daemon.currentToken.any (·.redeemed)

theorem not_accepted {d : Desktop} (h : d.leftOver = true) : ¬ d.Accepted := by
  simp only [leftOver, Bool.and_eq_true, List.isEmpty_iff, Bool.not_eq_true', Option.isNone_iff_eq_none] at h
  obtain ⟨⟨⟨⟨⟨⟨hsent, hcalls⟩, hcalling⟩, hasking⟩, hconfirmation⟩, hcounting⟩, hred⟩ := h
  obtain ⟨p, hp⟩ := Option.isSome_iff_exists.mp hcounting
  obtain ⟨hp, hleft⟩ := Option.filter_eq_some_iff.mp hp
  intro hacc
  obtain ⟨t, ht, -, hunused⟩ := hacc p hp (of_decide_eq_true hleft) ⟨hsent, hcalls, hcalling, hasking, hconfirmation⟩
  rw [ht, Option.any_some, hunused] at hred
  cases hred

open Daemon.Sample in
/-- A code whose phone was turned down stays on screen for the rest of its minute. -/
theorem display_outlives_token :
    ¬ ∀ tr d, Run (system cfg none empty) (fun _ _ a => alone a = true) tr d → d.Accepted := by
  have hrun : (exec (system cfg none empty) (fun _ _ a => alone a) [] (new (.initial none empty)) rejects).any
      (fun r => r.2.leftOver) = true := by decide +kernel
  obtain ⟨⟨tr, d⟩, he, hleft⟩ := (Option.any_eq_true _ _).mp hrun
  intro h
  exact not_accepted hleft (h tr d (.exec (fun _ _ _ h => h) (.init rfl) he))

end Desktop

end Cli

end PenguinSync
