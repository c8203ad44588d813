import Mathlib.Data.List.GetD
import PenguinSync.Lib.Text
import PenguinSync.Protocol.Pairing

/-!
# Socket addresses as text

`Display` and `FromStr` of the standard library's `SocketAddr`. An IPv6 address
is written as its segments, with the first longest run of zero segments left
out, or in dotted form where it is a mapped IPv4 address. The parser looks for
an embedded IPv4 address before every group, so a group must not look like the
start of one. The flow label is neither written nor read.
-/

namespace PenguinSync

open Text

/-! ## Segments -/

def segments : List UInt8 → List UInt16
  | a :: b :: rest => UInt16.ofNat (256 * a.toNat + b.toNat) :: segments rest
  | _ => []

def octets (gs : List UInt16) : List UInt8 :=
  gs.flatMap fun g => [UInt8.ofNat (g.toNat / 256), UInt8.ofNat (g.toNat % 256)]

theorem length_octets (gs : List UInt16) : (octets gs).length = 2 * gs.length := by
  unfold octets
  induction gs with
  | nil => rfl
  | cons g gs ih =>
    rw [List.flatMap_cons, List.length_append, ih]
    simp only [List.length_cons, List.length_nil]
    omega

theorem octets_segments : ∀ {n : Nat} {l : List UInt8}, l.length = 2 * n →
    octets (segments l) = l ∧ (segments l).length = n
  | 0, l, h => by
    rw [List.length_eq_zero_iff.mp h]
    exact ⟨rfl, rfl⟩
  | n + 1, a :: b :: l, h => by
    simp only [List.length_cons] at h
    obtain ⟨ho, hl⟩ := octets_segments (n := n) (l := l) (by omega)
    have ha := a.toNat_lt
    have hb := b.toNat_lt
    have hg : (UInt16.ofNat (256 * a.toNat + b.toNat)).toNat = 256 * a.toNat + b.toNat := by
      rw [UInt16.toNat_ofNat']
      omega
    have hdiv : (256 * a.toNat + b.toNat) / 256 = a.toNat := by omega
    have hmod : (256 * a.toNat + b.toNat) % 256 = b.toNat := by omega
    refine ⟨?_, by rw [segments, List.length_cons, hl]⟩
    unfold octets at ho ⊢
    rw [segments, List.flatMap_cons, ho, hg, hdiv, hmod]
    simp
  | n + 1, [], h => by simp at h
  | n + 1, [a], h => by
    simp only [List.length_cons, List.length_nil] at h
    omega

/-! ## Writing -/

def fmtIpv4 (ip : Bytes 4) : List Char := ['.'].intercalate (ip.1.map fun o => Nat.toDigits 10 o.toNat)

structure Span where
  start : Nat
  len : Nat
  deriving DecidableEq

/-- A zero segment at `i` makes the run one longer, or starts one. -/
def Span.extend (z : Span) (i : Nat) : Span := if z.len = 0 then ⟨i, 1⟩ else ⟨z.start, z.len + 1⟩

/-- The loop over the segments: `i` counts them, `current` is the run that ends here. -/
def zeroesFrom : Nat → Span → Span → List UInt16 → Span
  | _, longest, _, [] => longest
  | i, longest, current, g :: gs =>
    if g = 0 then
      let current := current.extend i
      zeroesFrom (i + 1) (if longest.len < current.len then current else longest) current gs
    else zeroesFrom (i + 1) longest ⟨0, 0⟩ gs

def zeroes (gs : List UInt16) : Span := zeroesFrom 0 ⟨0, 0⟩ ⟨0, 0⟩ gs

def fmtGroup (g : UInt16) : List Char := Nat.toDigits 16 g.toNat

def fmtTail (gs : List UInt16) : List Char := gs.flatMap fun g => ':' :: fmtGroup g

def fmtSubslice : List UInt16 → List Char
  | [] => []
  | first :: tail => fmtGroup first ++ fmtTail tail

def toIpv4Mapped (ip : Bytes 16) : Option (Bytes 4) :=
  if ip.1.take 12 = List.replicate 10 0 ++ [255, 255] then
    some ⟨ip.1.drop 12, by rw [List.length_drop, ip.2]⟩
  else none

def fmtIpv6 (ip : Bytes 16) : List Char :=
  match toIpv4Mapped ip with
  | some v4 => "::ffff:".toList ++ fmtIpv4 v4
  | none =>
    let gs := segments ip.1
    let z := zeroes gs
    if 1 < z.len then fmtSubslice (gs.take z.start) ++ ':' :: ':' :: fmtSubslice (gs.drop (z.start + z.len))
    else fmtSubslice gs

def fmtScopeId (scopeId : UInt32) : List Char :=
  if scopeId = 0 then [] else '%' :: Nat.toDigits 10 scopeId.toNat

def fmtPort (port : UInt16) : List Char := ':' :: Nat.toDigits 10 port.toNat

def SocketAddr.toText : SocketAddr → List Char
  | .v4 ip port => fmtIpv4 ip ++ fmtPort port
  | .v6 ip port _ scopeId => '[' :: fmtIpv6 ip ++ fmtScopeId scopeId ++ ']' :: fmtPort port

/-! ## Reading -/

def readOctet (index : Nat) : Reader UInt8 := do
  let o ← readSeparator '.' index (readNumber 10 (some 3) false (2 ^ 8))
  return UInt8.ofNat o

def readIpv4Addr : Reader (Bytes 4) := do
  let a ← readOctet 0
  let b ← readOctet 1
  let c ← readOctet 2
  let d ← readOctet 3
  return ⟨[a, b, c, d], rfl⟩

/-- Groups from position `i` on, while there are slots `left`; whether they end with
an embedded IPv4 address, which takes two slots. -/
def readGroups : (left i : Nat) → List Char → (List UInt16 × Bool) × List Char
  | 0, _, s => (([], false), s)
  | left + 1, i, s =>
    match if 0 < left then readSeparator ':' i readIpv4Addr s else none with
    | some (v4, s) => ((segments v4.1, true), s)
    | none =>
      match readSeparator ':' i (readNumber 16 (some 4) true (2 ^ 16)) s with
      | some (g, s) =>
        let r := readGroups left (i + 1) s
        ((UInt16.ofNat g :: r.1.1, r.1.2), r.2)
      | none => (([], false), s)

/-- Eight slots, zero at first, with `head` at the front and `tail` at the end. -/
def slots (head tail : List UInt16) : List UInt16 :=
  List.ofFn fun i : Fin 8 =>
    if i.1 < 8 - tail.length then head.getD i.1 0 else tail.getD (i.1 - (8 - tail.length)) 0

def concat (head tail : List UInt16) : Bytes 16 :=
  ⟨octets (slots head tail), by rw [length_octets, slots, List.length_ofFn]⟩

def readIpv6Addr : Reader (Bytes 16) := fun s =>
  let head := readGroups 8 0 s
  if head.1.1.length = 8 then some (concat head.1.1 [], head.2)
  -- no IPv4 part before the zeroes
  else if head.1.2 then none
  else do
    let s ← readGivenChar ':' head.2
    let s ← readGivenChar ':' s.2
    let tail := readGroups (8 - (head.1.1.length + 1)) 0 s.2
    return (concat head.1.1 tail.1.1, tail.2)

def readPort : Reader UInt16 := do
  readGivenChar ':'
  let port ← readNumber 10 none true (2 ^ 16)
  return UInt16.ofNat port

def readScopeId : Reader UInt32 := do
  readGivenChar '%'
  let scopeId ← readNumber 10 none true (2 ^ 32)
  return UInt32.ofNat scopeId

def readSocketAddrV4 : Reader SocketAddr := do
  let ip ← readIpv4Addr
  let port ← readPort
  return .v4 ip port

def readSocketAddrV6 : Reader SocketAddr := do
  readGivenChar '['
  let ip ← readIpv6Addr
  let scopeId ← readScopeId <|> pure 0
  readGivenChar ']'
  let port ← readPort
  return .v6 ip port 0 scopeId

def readSocketAddr : Reader SocketAddr := readSocketAddrV4 <|> readSocketAddrV6

/-- `parse::<SocketAddr>()`, which reads the text to its end. -/
def SocketAddr.fromText (s : List Char) : Option SocketAddr :=
  match readSocketAddr s with
  | some (addr, []) => some addr
  | _ => none

/-! ## IPv4 -/

theorem stops_cons {radix : Nat} {c : Char} (hc : isDigit radix c = false) (s : List Char) : Stops radix (c :: s) := by
  intro a ha
  obtain rfl := Option.some.inj ha
  exact hc

theorem readOctet_zero (o : UInt8) {s : List Char} (hs : Stops 10 s) :
    readOctet 0 (Nat.toDigits 10 o.toNat ++ s) = some (o, s) := by
  have ho := o.toNat_lt
  have hread : readNumber 10 (some 3) false (2 ^ 8) (Nat.toDigits 10 o.toNat ++ s) = some (o.toNat, s) := by
    apply readNumber_toDigits (by decide) (by decide) false _ ho hs
    intro m hm
    obtain rfl := Option.some.inj hm
    omega
  unfold readOctet
  rw [readSeparator_zero, Reader.bind_some hread, UInt8.ofNat_toNat]
  rfl

theorem readOctet_succ (i : Nat) (s : List Char) : readOctet (i + 1) ('.' :: s) = readOctet 0 s := by
  unfold readOctet
  simp only [bind, StateT.bind, readSeparator_succ, readSeparator_zero]

theorem readIpv4Addr_fmt (ip : Bytes 4) {s : List Char} (hs : Stops 10 s) :
    readIpv4Addr (fmtIpv4 ip ++ s) = some (ip, s) := by
  obtain ⟨l, hl⟩ := ip
  match l, hl with
  | [a, b, c, d], hl =>
    have hdot (t : List Char) : Stops 10 ('.' :: t) := stops_cons (by decide) t
    have htext : fmtIpv4 ⟨[a, b, c, d], hl⟩ ++ s = Nat.toDigits 10 a.toNat ++ '.' :: (Nat.toDigits 10 b.toNat ++
        '.' :: (Nat.toDigits 10 c.toNat ++ '.' :: (Nat.toDigits 10 d.toNat ++ s))) := by
      simp [fmtIpv4, List.intercalate_cons_cons]
    unfold readIpv4Addr
    rw [htext, Reader.bind_some (readOctet_zero a (hdot _))]
    rw [Reader.bind_some ((readOctet_succ 0 _).trans (readOctet_zero b (hdot _)))]
    rw [Reader.bind_some ((readOctet_succ 1 _).trans (readOctet_zero c (hdot _)))]
    rw [Reader.bind_some ((readOctet_succ 2 _).trans (readOctet_zero d hs))]
    rfl

/-- After the first number there has to be a dot. -/
theorem readIpv4Addr_none {s : List Char} (hs : (s.dropWhile (isDigit 10)).head? ≠ some '.') :
    readIpv4Addr s = none := by
  unfold readIpv4Addr
  cases hn : readNumber 10 (some 3) false (2 ^ 8) s with
  | none =>
    have ho : readOctet 0 s = none := Reader.bind_none hn _
    exact Reader.bind_none ho _
  | some ns =>
    obtain ⟨n, s'⟩ := ns
    have ho : readOctet 0 s = some (UInt8.ofNat n, s') := Reader.bind_some hn _
    rw [readNumber_rest hn] at ho
    have hnext : readOctet 1 (s.dropWhile (isDigit 10)) = none :=
      Reader.bind_none (readSeparator_none Nat.one_pos hs _) _
    rw [Reader.bind_some ho]
    exact Reader.bind_none hnext _

/-! ## Groups -/

theorem isDigit_hex {c : Char} (h : isDigit 10 c = true) : isDigit 16 c = true := by
  unfold isDigit toDigit at *
  cases hd : digitOf c with
  | none => simp [hd] at h
  | some d =>
    simp only [hd, Option.filter_some, decide_eq_true_eq] at h ⊢
    by_cases hlt : d < 10
    · have hlt16 : d < 16 := by omega
      simp [hlt16]
    · simp [hlt] at h

theorem stops_decimal {s : List Char} (hs : Stops 16 s) : Stops 10 s := by
  intro c hc
  rw [Bool.eq_false_iff]
  intro h
  have := hs c hc
  rw [isDigit_hex h] at this
  cases this

/-- What may follow a group: no digit and no dot. -/
structure AfterGroup (s : List Char) : Prop where
  stops : Stops 16 s
  dot : s.head? ≠ some '.'

theorem AfterGroup.cons {c : Char} (hc : isDigit 16 c = false) (hd : c ≠ '.') (s : List Char) :
    AfterGroup (c :: s) := by
  refine ⟨stops_cons hc s, ?_⟩
  simpa using hd

/-- Hex digits do not start an IPv4 address unless a dot follows them. -/
theorem readIpv4Addr_hex {s : List Char} (hs : AfterGroup s) : ∀ {l : List Char}, (∀ c ∈ l, isDigit 16 c = true) →
    ((l ++ s).dropWhile (isDigit 10)).head? ≠ some '.'
  | [], _ => by
    cases s with
    | nil => simp
    | cons c s =>
      have hc : isDigit 10 c = false := stops_decimal hs.stops c rfl
      rw [List.nil_append, List.dropWhile_cons_of_neg (by simp [hc])]
      exact hs.dot
  | c :: l, hl => by
    have hc : isDigit 16 c = true := hl c List.mem_cons_self
    rw [List.cons_append]
    by_cases h10 : isDigit 10 c = true
    · rw [List.dropWhile_cons_of_pos h10]
      exact readIpv4Addr_hex hs fun a ha => hl a (List.mem_cons_of_mem _ ha)
    · rw [List.dropWhile_cons_of_neg h10, List.head?_cons]
      intro hdot
      rw [Option.some.inj hdot] at hc
      exact absurd hc (by decide)

theorem readIpv4Addr_group (g : UInt16) {s : List Char} (hs : AfterGroup s) : readIpv4Addr (fmtGroup g ++ s) = none :=
  readIpv4Addr_none (readIpv4Addr_hex hs (isDigit_toDigits (by decide) (by decide) _))

theorem readNumber_group (g : UInt16) {s : List Char} (hs : AfterGroup s) :
    readNumber 16 (some 4) true (2 ^ 16) (fmtGroup g ++ s) = some (g.toNat, s) := by
  have hg := g.toNat_lt
  apply readNumber_toDigits (by decide) (by decide) true _ hg hs.stops
  intro m hm
  obtain rfl := Option.some.inj hm
  omega

/-- What may follow the last group: no group does, not even after a colon. -/
structure AfterGroups (s : List Char) : Prop extends AfterGroup s where
  colon : ∀ s', s = ':' :: s' → Stops 16 s'

theorem readGroups_end {s : List Char} (hs : AfterGroups s) (left i : Nat) :
    readGroups left i s = (([], false), s) := by
  have hno {α : Type} {inner : Reader α} (hi : ∀ {t}, Stops 16 t → inner t = none) :
      readSeparator ':' i inner s = none := by
    cases i with
    | zero => exact hi hs.stops
    | succ i =>
      by_cases hc : s.head? = some ':'
      · obtain ⟨t, rfl⟩ := List.head?_eq_some_iff.mp hc
        rw [readSeparator_succ]
        exact hi (hs.colon t rfl)
      · exact readSeparator_none (Nat.succ_pos i) hc inner
  have hip : readSeparator ':' i readIpv4Addr s = none :=
    hno fun ht => Reader.bind_none (Reader.bind_none (readNumber_none (stops_decimal ht)) _) _
  have hgroup : readSeparator ':' i (readNumber 16 (some 4) true (2 ^ 16)) s = none := hno readNumber_none
  cases left with
  | zero => rfl
  | succ left => simp only [readGroups, hip, hgroup, ite_self]

/-- One group is read, and what follows it is read from the next position. -/
theorem readGroups_cons {left i : Nat} {g : UInt16} {s t : List Char} (hs : AfterGroup s)
    (ht : ∀ {α : Type} (inner : Reader α), readSeparator ':' i inner t = inner (fmtGroup g ++ s)) :
    readGroups (left + 1) i t =
      ((g :: (readGroups left (i + 1) s).1.1, (readGroups left (i + 1) s).1.2), (readGroups left (i + 1) s).2) := by
  have hip : readSeparator ':' i readIpv4Addr t = none := by rw [ht, readIpv4Addr_group g hs]
  have hgroup : readSeparator ':' i (readNumber 16 (some 4) true (2 ^ 16)) t = some (g.toNat, s) := by
    rw [ht, readNumber_group g hs]
  simp only [readGroups, hip, hgroup, ite_self, UInt16.ofNat_toNat]

theorem afterGroup_fmtTail {s : List Char} (hs : AfterGroup s) (gs : List UInt16) : AfterGroup (fmtTail gs ++ s) := by
  cases gs with
  | nil => exact hs
  | cons g gs => exact .cons (by decide) (by decide) _

theorem readGroups_fmtTail {s : List Char} (hs : AfterGroups s) : ∀ {gs : List UInt16} {left : Nat} (i : Nat),
    gs.length ≤ left → readGroups left (i + 1) (fmtTail gs ++ s) = ((gs, false), s)
  | [], left, i, _ => readGroups_end hs left (i + 1)
  | g :: gs, left + 1, i, hlen => by
    have ih := readGroups_fmtTail hs (i + 1) (Nat.le_of_succ_le_succ hlen)
    have htext : fmtTail (g :: gs) ++ s = ':' :: (fmtGroup g ++ (fmtTail gs ++ s)) := by simp [fmtTail]
    rw [htext, readGroups_cons (afterGroup_fmtTail hs.toAfterGroup gs) fun inner => readSeparator_succ _ _ inner _, ih]

theorem readGroups_fmtSubslice {s : List Char} (hs : AfterGroups s) {gs : List UInt16} {left : Nat}
    (hlen : gs.length ≤ left) : readGroups left 0 (fmtSubslice gs ++ s) = ((gs, false), s) := by
  cases gs with
  | nil => exact readGroups_end hs left 0
  | cons g gs =>
    obtain ⟨left, rfl⟩ : ∃ n, left = n + 1 := ⟨left - 1, by simp only [List.length_cons] at hlen; omega⟩
    rw [fmtSubslice, List.append_assoc, readGroups_cons (afterGroup_fmtTail hs.toAfterGroup gs) fun inner => rfl,
      readGroups_fmtTail hs 0 (Nat.le_of_succ_le_succ hlen)]

/-! ## The run of zeroes -/

structure Span.IsRun (gs : List UInt16) (z : Span) : Prop where
  le : z.start + z.len ≤ gs.length
  zero : ∀ j, z.start ≤ j → j < z.start + z.len → gs[j]? = some 0

theorem Span.IsRun.empty (gs : List UInt16) : Span.IsRun gs ⟨0, 0⟩ :=
  ⟨Nat.zero_le _, fun j _ hj => absurd hj (Nat.not_lt_zero j)⟩

theorem Span.extend_end {z : Span} {i : Nat} (h : z.len = 0 ∨ z.start + z.len = i) :
    (z.extend i).start + (z.extend i).len = i + 1 := by
  unfold Span.extend
  split
  · rfl
  · rename_i hne
    have := h.resolve_left hne
    simp only
    omega

theorem Span.IsRun.extend {gs : List UInt16} {z : Span} (hz : z.IsRun gs) {i : Nat}
    (hi : z.len = 0 ∨ z.start + z.len = i) (hg : gs[i]? = some 0) : (z.extend i).IsRun gs := by
  have hend := Span.extend_end hi
  have hlt : i < gs.length := by
    by_contra h
    rw [List.getElem?_eq_none (by omega)] at hg
    cases hg
  refine ⟨by omega, fun j h1 h2 => ?_⟩
  by_cases hj : j = i
  · exact hj ▸ hg
  · have hlen : z.len ≠ 0 := by
      intro h0
      simp only [Span.extend, h0, if_true] at h1
      omega
    simp only [Span.extend, if_neg hlen] at h1
    have := hi.resolve_left hlen
    exact hz.zero j h1 (by omega)

/-- By induction on the segments to come: both runs are runs, and the current one
ends where the loop stands. -/
theorem zeroesFrom_isRun {gs : List UInt16} : ∀ {rest done : List UInt16} {longest current : Span}, gs = done ++ rest →
    longest.IsRun gs → current.IsRun gs → current.len = 0 ∨ current.start + current.len = done.length →
    (zeroesFrom done.length longest current rest).IsRun gs
  | [], _, _, _, _, hl, _, _ => hl
  | g :: rest, done, longest, current, hgs, hl, hc, hend => by
    have hgs' : gs = (done ++ [g]) ++ rest := by rw [hgs, List.append_assoc]; rfl
    have hlen : (done ++ [g]).length = done.length + 1 := List.length_append
    unfold zeroesFrom
    rw [← hlen]
    by_cases hg : g = 0
    · have hat : gs[done.length]? = some 0 := by
        rw [hgs, List.getElem?_append_right (Nat.le_refl _)]
        simp [hg]
      have hc' := hc.extend hend hat
      rw [if_pos hg]
      apply zeroesFrom_isRun hgs' _ hc' (Or.inr ((Span.extend_end hend).trans hlen.symm))
      split
      · exact hc'
      · exact hl
    · rw [if_neg hg]
      exact zeroesFrom_isRun hgs' hl (.empty gs) (Or.inl rfl)

theorem zeroes_isRun (gs : List UInt16) : (zeroes gs).IsRun gs := by
  have hstart : gs = [] ++ gs := rfl
  exact zeroesFrom_isRun hstart (.empty gs) (.empty gs) (Or.inl rfl)

theorem Span.IsRun.split {gs : List UInt16} {z : Span} (hz : z.IsRun gs) :
    gs = gs.take z.start ++ List.replicate z.len 0 ++ gs.drop (z.start + z.len) := by
  have hle := hz.le
  have hmid : (gs.drop z.start).take z.len = List.replicate z.len 0 := by
    rw [List.eq_replicate_iff]
    refine ⟨by rw [List.length_take, List.length_drop]; omega, fun b hb => ?_⟩
    obtain ⟨j, hj, rfl⟩ := List.mem_iff_getElem.mp hb
    rw [List.length_take, List.length_drop] at hj
    have h0 := hz.zero (z.start + j) (by omega) (by omega)
    rw [List.getElem?_eq_getElem (by omega)] at h0
    rw [List.getElem_take, List.getElem_drop]
    exact Option.some.inj h0
  rw [← hmid, ← List.drop_drop, List.append_assoc, List.take_append_drop, List.take_append_drop]

theorem slots_eq {head tail : List UInt16} {n : Nat} (h : head.length + n + tail.length = 8) :
    slots head tail = head ++ List.replicate n 0 ++ tail := by
  unfold slots
  apply List.ext_getElem
  · rw [List.length_ofFn, List.length_append, List.length_append, List.length_replicate, h]
  · intro i h1 h2
    rw [List.length_ofFn] at h1
    rw [List.getElem_ofFn]
    have hpre : (head ++ List.replicate n 0).length = 8 - tail.length := by
      rw [List.length_append, List.length_replicate]
      omega
    by_cases htail : i < 8 - tail.length
    · rw [if_pos htail, List.getElem_append_left (by omega)]
      by_cases hhead : i < head.length
      · rw [List.getElem_append_left hhead, List.getD_eq_getElem _ _ hhead]
      · have hge : head.length ≤ i := by omega
        rw [List.getElem_append_right hge, List.getElem_replicate, List.getD_eq_default _ _ hge]
    · have hlt : i - (8 - tail.length) < tail.length := by omega
      rw [if_neg htail, List.getElem_append_right (by omega), List.getD_eq_getElem _ _ hlt]
      simp only [hpre]

theorem concat_eq {ip : Bytes 16} {head tail : List UInt16} {n : Nat}
    (h : segments ip.1 = head ++ List.replicate n 0 ++ tail) : concat head tail = ip := by
  obtain ⟨ho, hl⟩ := octets_segments (n := 8) ip.2
  have hlen : head.length + n + tail.length = 8 := by
    rw [h, List.length_append, List.length_append, List.length_replicate] at hl
    exact hl
  have hslots : octets (slots head tail) = ip.1 := by rw [slots_eq hlen, ← h, ho]
  exact Subtype.ext hslots

/-! ## IPv6 -/

theorem afterGroups_zeroes (s : List Char) : AfterGroups (':' :: ':' :: s) := by
  refine ⟨.cons (by decide) (by decide) _, fun t ht => ?_⟩
  obtain rfl := List.tail_eq_of_cons_eq ht
  exact stops_cons (by decide) s

theorem readIpv6Addr_zeroes (head : List UInt16) {tail : List UInt16} {ipv4 : Bool} {t s : List Char} (hlen : head.length < 8)
    (ht : readGroups (8 - (head.length + 1)) 0 t = ((tail, ipv4), s)) :
    readIpv6Addr (fmtSubslice head ++ ':' :: ':' :: t) = some (concat head tail, s) := by
  have hhead := readGroups_fmtSubslice (afterGroups_zeroes t) (Nat.le_of_lt hlen)
  unfold readIpv6Addr
  simp only [hhead, if_neg (Nat.ne_of_lt hlen), readGivenChar_cons, Option.bind_eq_bind, Option.bind_some, ht,
    Bool.false_eq_true, if_false]
  rfl

theorem readIpv6Addr_groups {ip : Bytes 16} {s : List Char} (hs : AfterGroups s) :
    readIpv6Addr (fmtSubslice (segments ip.1) ++ s) = some (ip, s) := by
  obtain ⟨-, hlen⟩ := octets_segments (n := 8) ip.2
  have hgs : segments ip.1 = segments ip.1 ++ List.replicate 0 0 ++ [] := by simp
  have hread := readGroups_fmtSubslice hs (Nat.le_of_eq hlen)
  unfold readIpv6Addr
  simp only [hread, if_pos hlen, concat_eq hgs]

theorem toIpv4Mapped_segments {ip : Bytes 16} {v4 : Bytes 4} (h : toIpv4Mapped ip = some v4) :
    segments ip.1 = [] ++ List.replicate 5 0 ++ 65535 :: segments v4.1 := by
  unfold toIpv4Mapped at h
  split at h
  · rename_i hpre
    obtain rfl := Option.some.inj h
    have hsplit : segments ip.1 = segments (List.replicate 10 0 ++ [255, 255] ++ ip.1.drop 12) := by
      rw [← hpre, List.take_append_drop]
    rw [hsplit]
    rfl
  · cases h

theorem readGroups_ipv4 (ip : Bytes 4) {s : List Char} (hs : Stops 10 s) (left i : Nat) :
    readGroups (left + 2) (i + 1) (':' :: (fmtIpv4 ip ++ s)) = ((segments ip.1, true), s) := by
  have hip : readSeparator ':' (i + 1) readIpv4Addr (':' :: (fmtIpv4 ip ++ s)) = some (ip, s) := by
    rw [readSeparator_succ, readIpv4Addr_fmt ip hs]
  unfold readGroups
  simp only [if_pos (Nat.succ_pos left), hip]

theorem fmtIpv6_mapped {ip : Bytes 16} {v4 : Bytes 4} (h : toIpv4Mapped ip = some v4) (s : List Char) :
    fmtIpv6 ip ++ s = fmtSubslice [] ++ ':' :: ':' :: (fmtGroup 65535 ++ ':' :: (fmtIpv4 v4 ++ s)) := by
  have hmark : "::ffff:".toList = ':' :: ':' :: (fmtGroup 65535 ++ [':']) := by decide
  unfold fmtIpv6
  simp only [h, hmark]
  simp [fmtSubslice]

theorem fmtIpv6_zeroes {ip : Bytes 16} {z : Span} (hm : toIpv4Mapped ip = none) (hz : zeroes (segments ip.1) = z)
    (hlen : 1 < z.len) (s : List Char) : fmtIpv6 ip ++ s = fmtSubslice ((segments ip.1).take z.start) ++
      ':' :: ':' :: (fmtSubslice ((segments ip.1).drop (z.start + z.len)) ++ s) := by
  unfold fmtIpv6
  simp only [hm, hz, if_pos hlen]
  simp

theorem readIpv6Addr_fmt (ip : Bytes 16) {s : List Char} (hs : AfterGroups s) :
    readIpv6Addr (fmtIpv6 ip ++ s) = some (ip, s) := by
  cases hm : toIpv4Mapped ip with
  | some v4 =>
    have hcolon : AfterGroup (':' :: (fmtIpv4 v4 ++ s)) := .cons (by decide) (by decide) _
    have htail : readGroups 7 0 (fmtGroup 65535 ++ ':' :: (fmtIpv4 v4 ++ s)) =
        ((65535 :: segments v4.1, true), s) := by
      rw [readGroups_cons hcolon fun inner => rfl, readGroups_ipv4 v4 (stops_decimal hs.stops)]
    have hread := readIpv6Addr_zeroes [] (by decide) htail
    rw [fmtIpv6_mapped hm, hread, concat_eq (toIpv4Mapped_segments hm)]
  | none =>
    obtain ⟨z, hzdef⟩ : ∃ z, zeroes (segments ip.1) = z := ⟨_, rfl⟩
    by_cases hz : 1 < z.len
    · have hrun : z.IsRun (segments ip.1) := hzdef ▸ zeroes_isRun (segments ip.1)
      obtain ⟨-, hlen⟩ := octets_segments (n := 8) ip.2
      have hle := hrun.le
      have hstart : ((segments ip.1).take z.start).length = z.start := by
        rw [List.length_take]
        omega
      have hrest : ((segments ip.1).drop (z.start + z.len)).length ≤
          8 - (((segments ip.1).take z.start).length + 1) := by
        rw [List.length_drop, hstart]
        omega
      rw [fmtIpv6_zeroes hm hzdef hz, readIpv6Addr_zeroes _ (by omega) (readGroups_fmtSubslice hs hrest),
        concat_eq hrun.split]
    · have htext : fmtIpv6 ip = fmtSubslice (segments ip.1) := by
        unfold fmtIpv6
        simp only [hm, hzdef, if_neg hz]
      rw [htext, readIpv6Addr_groups hs]

/-! ## Socket addresses -/

def SocketAddr.flowinfo : SocketAddr → UInt32
  | .v4 _ _ => 0
  | .v6 _ _ flowinfo _ => flowinfo

theorem readPort_fmt (port : UInt16) : readPort (fmtPort port) = some (port, []) := by
  have hp := port.toNat_lt
  have hread : readNumber 10 none true (2 ^ 16) (Nat.toDigits 10 port.toNat ++ []) = some (port.toNat, []) :=
    readNumber_toDigits (by decide) (by decide) true (by simp) hp (by simp [Stops])
  rw [List.append_nil] at hread
  unfold readPort fmtPort
  rw [Reader.bind_some (readGivenChar_cons ':' _), Reader.bind_some hread, UInt16.ofNat_toNat]
  rfl

theorem readScopeId_fmt (scopeId : UInt32) (s : List Char) :
    (readScopeId <|> pure 0) (fmtScopeId scopeId ++ ']' :: s) = some (scopeId, ']' :: s) := by
  rw [Reader.orElse_eq]
  unfold fmtScopeId readScopeId
  by_cases h0 : scopeId = 0
  · subst h0
    rw [if_pos rfl, List.nil_append, Reader.bind_none (readGivenChar_none (by simp))]
    rfl
  · have hb := scopeId.toNat_lt
    have hread : readNumber 10 none true (2 ^ 32) (Nat.toDigits 10 scopeId.toNat ++ ']' :: s) =
        some (scopeId.toNat, ']' :: s) :=
      readNumber_toDigits (by decide) (by decide) true (by simp) hb (stops_cons (by decide) s)
    rw [if_neg h0, List.cons_append, Reader.bind_some (readGivenChar_cons '%' _), Reader.bind_some hread,
      UInt32.ofNat_toNat]
    rfl

theorem afterGroups_fmtScopeId (scopeId : UInt32) (s : List Char) : AfterGroups (fmtScopeId scopeId ++ ']' :: s) := by
  unfold fmtScopeId
  by_cases h0 : scopeId = 0
  · rw [if_pos h0]
    exact ⟨.cons (by decide) (by decide) _, fun t ht => by cases ht⟩
  · rw [if_neg h0]
    exact ⟨.cons (by decide) (by decide) _, fun t ht => by cases ht⟩

theorem readSocketAddr_toText {addr : SocketAddr} (h : addr.flowinfo = 0) :
    readSocketAddr addr.toText = some (addr, []) := by
  unfold readSocketAddr
  rw [Reader.orElse_eq]
  cases addr with
  | v4 ip port =>
    have hv4 : readSocketAddrV4 (fmtIpv4 ip ++ fmtPort port) = some (.v4 ip port, []) := by
      unfold readSocketAddrV4
      have hcolon : Stops 10 (fmtPort port) := stops_cons (by decide) _
      rw [Reader.bind_some (readIpv4Addr_fmt ip hcolon), Reader.bind_some (readPort_fmt port)]
      rfl
    rw [SocketAddr.toText, hv4]
    rfl
  | v6 ip port flowinfo scopeId =>
    obtain rfl : flowinfo = 0 := h
    have hv4 (s : List Char) : readSocketAddrV4 ('[' :: s) = none := by
      have hstop : ('[' :: s).dropWhile (isDigit 10) = '[' :: s := List.dropWhile_cons_of_neg (by decide)
      exact Reader.bind_none (readIpv4Addr_none (by rw [hstop]; simp)) _
    have hv6 : readSocketAddrV6 ('[' :: fmtIpv6 ip ++ fmtScopeId scopeId ++ ']' :: fmtPort port) =
        some (.v6 ip port 0 scopeId, []) := by
      unfold readSocketAddrV6
      rw [List.append_assoc, List.cons_append, Reader.bind_some (readGivenChar_cons '[' _),
        Reader.bind_some (readIpv6Addr_fmt ip (afterGroups_fmtScopeId scopeId _)),
        Reader.bind_some (readScopeId_fmt scopeId _), Reader.bind_some (readGivenChar_cons ']' _),
        Reader.bind_some (readPort_fmt port)]
      rfl
    rw [SocketAddr.toText, hv6, List.append_assoc, List.cons_append, hv4]
    rfl

theorem SocketAddr.fromText_toText {addr : SocketAddr} (h : addr.flowinfo = 0) : fromText addr.toText = some addr := by
  unfold fromText
  rw [readSocketAddr_toText h]

theorem readSocketAddr_flowinfo : readSocketAddr.Yields fun addr => addr.flowinfo = 0 := by
  apply Reader.Yields.orElse
  · apply Reader.Yields.bind
    intro ip
    apply Reader.Yields.bind
    intro port
    exact .pure rfl
  · apply Reader.Yields.bind
    intro _
    apply Reader.Yields.bind
    intro ip
    apply Reader.Yields.bind
    intro scopeId
    apply Reader.Yields.bind
    intro _
    apply Reader.Yields.bind
    intro port
    exact .pure rfl

theorem SocketAddr.fromText_flowinfo {s : List Char} {addr : SocketAddr} (h : fromText s = some addr) :
    addr.flowinfo = 0 := by
  unfold fromText at h
  split at h
  · rename_i hread
    obtain rfl := Option.some.inj h
    exact readSocketAddr_flowinfo _ _ _ hread
  · cases h

end PenguinSync
