import PenguinSync.Lib.Checked
import PenguinSync.Cli.Tui

/-!
# The pairing and confirmation views

Sizes are `u16`. A view is the list of widgets it renders, or `none` where its
arithmetic overflows or a `clamp` has its bounds the wrong way round. Styles are
left out.
-/

namespace PenguinSync

namespace Cli

structure Rect where
  x : Nat
  y : Nat
  width : Nat
  height : Nat
  deriving DecidableEq

def frameArea (width height : UInt16) : Rect := ⟨0, 0, width.toNat, height.toNat⟩

structure Rect.Inside (r area : Rect) : Prop where
  left : area.x ≤ r.x
  right : r.x + r.width ≤ area.x + area.width
  top : area.y ≤ r.y
  bottom : r.y + r.height ≤ area.y + area.height

/-! ## The rendered code -/

structure Rendered where
  text : String
  width : UInt16
  height : UInt16
  deriving DecidableEq

/-- `str::lines`: a last line that is empty does not count. -/
def lines (text : String) : List (List Char) :=
  let ls := text.toList.splitOn '\n'
  let ls := if ls.getLast? = some [] then ls.dropLast else ls
  ls.map fun l => if l.getLast? = some '\r' then l.dropLast else l

/-- `try_into().unwrap_or(u16::MAX)`. -/
def saturateU16 (n : Nat) : UInt16 := if n < 2 ^ 16 then UInt16.ofNat n else 65535

/-- `build` is the text of the code for some data, if there is one that holds them. -/
def render (build : List UInt8 → Option String) (data : String) : Option Rendered :=
  (build (utf8 data)).map fun text =>
    ⟨text, saturateU16 (((lines text).map List.length).foldr max 0), saturateU16 (lines text).length⟩

/-! ## The views -/

inductive Widget where
  | clear
  | code (qr : Rendered)
  | paragraph (lines : List String)
  | bordered (title : String) (lines : List String)
  deriving DecidableEq

abbrev Drawn := List (Widget × Rect)

def pairingFooterRows : Nat := 4

/-- `left` is what `remaining_secs` has come to. -/
def drawPairing (area : Rect) (qr : Rendered) (uri fingerprint : String) (left : Nat) : Option Drawn :=
  let neededWidth := qr.width.toNat
  (Checked.add 16 qr.height.toNat pairingFooterRows).bind fun neededHeight =>
  if area.width < neededWidth ∨ area.height < neededHeight then
    some [(.clear, area),
      (.paragraph [s!"This terminal is {area.width}x{area.height}, too small to show the pairing QR " ++
          s!"uncut (it needs {neededWidth}x{neededHeight}). A clipped QR cannot be scanned, so it isn't drawn.",
        "", "Resize the window and press 'p' again — or type this into the phone's Pair screen by hand:", "", uri, "",
        s!"Fingerprint: {fingerprint}", "", "[Esc] dismiss"], area)]
  else
    -- centred horizontally, aligned to the top
    (Checked.sub area.width neededWidth).bind fun slack =>
    (Checked.add 16 area.x (slack / 2)).bind fun x =>
    (Checked.add 16 area.y qr.height.toNat).bind fun y =>
    some [(.clear, area), (.code qr, ⟨x, area.y, neededWidth, qr.height.toNat⟩),
      (.paragraph [s!"Fingerprint  {fingerprint}", s!"Refreshes in {left}s", "", "Esc dismiss"],
        ⟨x, y, neededWidth, pairingFooterRows⟩)]

def drawConfirmation (area : Rect) (confirmation : PendingConfirmation) : Option Drawn :=
  (Checked.mul 16 area.width 3).bind fun width3 =>
  (Checked.clamp (width3 / 4) 20 area.width).bind fun width =>
  (Checked.mul 16 area.height 3).bind fun height3 =>
  (Checked.clamp (height3 / 4) 10 area.height).bind fun height =>
  -- `saturating_sub`; the popup is placed from the corner of the screen
  let popup : Rect := ⟨(area.width - width) / 2, (area.height - height) / 2, width, height⟩
  some [(.clear, popup),
    (.bordered " Confirm pairing " ["", s!"Device       {confirmation.name}",
      s!"Fingerprint  {confirmation.fingerprint}", "", "Does this match what the phone is showing?", "",
      "y confirm    n reject"], popup)]

def Safe (area : Rect) (view : Option Drawn) : Prop := ∃ drawn, view = some drawn ∧ ∀ d ∈ drawn, d.2.Inside area

def CodeFits (area : Rect) (view : Option Drawn) : Prop :=
  ∀ drawn, view = some drawn → ∀ qr r, (Widget.code qr, r) ∈ drawn →
    r.width = qr.width.toNat ∧ r.height = qr.height.toNat ∧
      qr.width.toNat ≤ area.width ∧ qr.height.toNat + pairingFooterRows ≤ area.height

theorem Rect.inside_self (r : Rect) : r.Inside r := ⟨le_rfl, le_rfl, le_rfl, le_rfl⟩

/-! ## The pairing view -/

section
variable {area : Rect} {qr : Rendered} (uri fingerprint : String) (left : Nat)

theorem drawPairing_small (hheight : qr.height.toNat + pairingFooterRows < 2 ^ 16)
    (hsmall : area.width < qr.width.toNat ∨ area.height < qr.height.toNat + pairingFooterRows) :
    ∃ body, drawPairing area qr uri fingerprint left = some [(.clear, area), (.paragraph body, area)] := by
  unfold drawPairing
  rw [Checked.add_of_lt hheight, Option.bind_some, if_pos hsmall]
  exact ⟨_, rfl⟩

theorem drawPairing_fits (hheight : qr.height.toNat + pairingFooterRows < 2 ^ 16)
    (hfits : ¬ (area.width < qr.width.toNat ∨ area.height < qr.height.toNat + pairingFooterRows))
    (hx : area.x + area.width < 2 ^ 16) (hy : area.y + area.height < 2 ^ 16) :
    ∃ body, drawPairing area qr uri fingerprint left =
      some [(.clear, area),
        (.code qr, ⟨area.x + (area.width - qr.width.toNat) / 2, area.y, qr.width.toNat, qr.height.toNat⟩),
        (.paragraph body, ⟨area.x + (area.width - qr.width.toNat) / 2, area.y + qr.height.toNat, qr.width.toNat,
          pairingFooterRows⟩)] := by
  have hwidth : qr.width.toNat ≤ area.width := Nat.le_of_not_lt fun h => hfits (Or.inl h)
  have hrows : qr.height.toNat + pairingFooterRows ≤ area.height := Nat.le_of_not_lt fun h => hfits (Or.inr h)
  have hleft : area.x + (area.width - qr.width.toNat) / 2 < 2 ^ 16 := by omega
  have htop : area.y + qr.height.toNat < 2 ^ 16 := by omega
  unfold drawPairing
  rw [Checked.add_of_lt hheight, Option.bind_some, if_neg hfits, Checked.sub_of_le hwidth, Option.bind_some,
    Checked.add_of_lt hleft, Option.bind_some, Checked.add_of_lt htop, Option.bind_some]
  exact ⟨_, rfl⟩

/-- The code's own height is the only thing that can go wrong. -/
theorem drawPairing_safe_iff (hx : area.x + area.width < 2 ^ 16) (hy : area.y + area.height < 2 ^ 16) :
    Safe area (drawPairing area qr uri fingerprint left) ∧ CodeFits area (drawPairing area qr uri fingerprint left) ↔
      qr.height.toNat + pairingFooterRows < 2 ^ 16 := by
  constructor
  · rintro ⟨⟨drawn, hdrawn, -⟩, -⟩
    obtain ⟨neededHeight, hneeded, -⟩ := Option.bind_eq_some_iff.mp hdrawn
    exact Checked.lt_of_add hneeded
  · intro hheight
    by_cases hsmall : area.width < qr.width.toNat ∨ area.height < qr.height.toNat + pairingFooterRows
    · obtain ⟨body, hbody⟩ := drawPairing_small uri fingerprint left hheight hsmall
      rw [hbody]
      constructor
      · refine ⟨_, rfl, fun d hd => ?_⟩
        rcases List.mem_cons.mp hd with rfl | hd
        · exact area.inside_self
        · rw [List.mem_singleton.mp hd]
          exact area.inside_self
      · rintro drawn hdrawn qr' r hr
        cases hdrawn
        simp at hr
    · obtain ⟨body, hbody⟩ := drawPairing_fits uri fingerprint left hheight hsmall hx hy
      have hwidth : qr.width.toNat ≤ area.width := Nat.le_of_not_lt fun h => hsmall (Or.inl h)
      have hrows : qr.height.toNat + pairingFooterRows ≤ area.height := Nat.le_of_not_lt fun h => hsmall (Or.inr h)
      have hcode : (⟨area.x + (area.width - qr.width.toNat) / 2, area.y, qr.width.toNat, qr.height.toNat⟩ : Rect).Inside
          area := by
        constructor
        all_goals simp only
        all_goals omega
      have hfooter : (⟨area.x + (area.width - qr.width.toNat) / 2, area.y + qr.height.toNat, qr.width.toNat,
          pairingFooterRows⟩ : Rect).Inside area := by
        constructor
        all_goals simp only
        all_goals omega
      rw [hbody]
      constructor
      · refine ⟨_, rfl, fun d hd => ?_⟩
        rcases List.mem_cons.mp hd with rfl | hd
        · exact area.inside_self
        rcases List.mem_cons.mp hd with rfl | hd
        · exact hcode
        · rw [List.mem_singleton.mp hd]
          exact hfooter
      · rintro drawn hdrawn qr' r hr
        cases hdrawn
        simp only [List.mem_cons, Prod.mk.injEq, Widget.code.injEq, List.not_mem_nil, or_false, reduceCtorEq,
          false_and, false_or] at hr
        obtain ⟨rfl, rfl⟩ := hr
        exact ⟨rfl, rfl, hwidth, hrows⟩

end

/-! ## The confirmation view -/

section
variable {area : Rect} (confirmation : PendingConfirmation)

/-- A size for which three quarters can be computed and clamped from below. -/
def Roomy (least size : Nat) : Prop := least ≤ size ∧ size * 3 < 2 ^ 16

theorem drawConfirmation_roomy (hwidth : Roomy 20 area.width) (hheight : Roomy 10 area.height) :
    ∃ popup body, drawConfirmation area confirmation =
        some [(.clear, popup), (.bordered " Confirm pairing " body, popup)] ∧
      popup.x + popup.width ≤ area.width ∧ popup.y + popup.height ≤ area.height := by
  unfold drawConfirmation
  rw [Checked.mul_of_lt hwidth.2, Option.bind_some, Checked.clamp_of_le hwidth.1, Option.bind_some,
    Checked.mul_of_lt hheight.2, Option.bind_some, Checked.clamp_of_le hheight.1, Option.bind_some]
  have hle (least size : Nat) (h : least ≤ size) : max least (min (size * 3 / 4) size) ≤ size :=
    max_le h (min_le_right _ _)
  have hw := hle 20 area.width hwidth.1
  have hh := hle 10 area.height hheight.1
  refine ⟨_, _, rfl, ?_, ?_⟩
  · simp only
    omega
  · simp only
    omega

theorem roomy_of_drawConfirmation {confirmation : PendingConfirmation} {drawn : Drawn} (h : drawConfirmation area confirmation = some drawn) :
    Roomy 20 area.width ∧ Roomy 10 area.height := by
  obtain ⟨width3, hwidth3, h⟩ := Option.bind_eq_some_iff.mp h
  obtain ⟨width, hwidth, h⟩ := Option.bind_eq_some_iff.mp h
  obtain ⟨height3, hheight3, h⟩ := Option.bind_eq_some_iff.mp h
  obtain ⟨height, hheight, -⟩ := Option.bind_eq_some_iff.mp h
  exact ⟨⟨Checked.le_of_clamp hwidth, Checked.lt_of_mul hwidth3⟩,
    Checked.le_of_clamp hheight, Checked.lt_of_mul hheight3⟩

/-- On a full screen the popup is drawn where both dimensions leave room for it. -/
theorem drawConfirmation_safe_iff (hx : area.x = 0) (hy : area.y = 0) :
    Safe area (drawConfirmation area confirmation) ↔ Roomy 20 area.width ∧ Roomy 10 area.height := by
  constructor
  · rintro ⟨drawn, hdrawn, -⟩
    exact roomy_of_drawConfirmation hdrawn
  · rintro ⟨hwidth, hheight⟩
    obtain ⟨popup, body, hdraw, hright, hbottom⟩ := drawConfirmation_roomy confirmation hwidth hheight
    have hinside : popup.Inside area := by
      constructor
      all_goals omega
    refine ⟨_, hdraw, fun d hd => ?_⟩
    rcases List.mem_cons.mp hd with rfl | hd
    · exact hinside
    · rw [List.mem_singleton.mp hd]
      exact hinside

end

/-! ## Every size -/

theorem saturateU16_toNat (n : Nat) : (saturateU16 n).toNat = min n 65535 := by
  unfold saturateU16
  split
  · rename_i hn
    rw [UInt16.toNat_ofNat']
    omega
  · rename_i hn
    have hmax : (65535 : UInt16).toNat = 65535 := rfl
    omega

/-- A rendered code leaves room for the footer's rows as long as its text has
fewer than 65532 lines. -/
theorem render_height {build : List UInt8 → Option String} {data : String} {qr : Rendered}
    (h : render build data = some qr) :
    qr.height.toNat + pairingFooterRows < 2 ^ 16 ↔ (lines qr.text).length + pairingFooterRows < 2 ^ 16 := by
  obtain ⟨text, -, rfl⟩ := Option.map_eq_some_iff.mp h
  simp only [saturateU16_toNat, pairingFooterRows]
  omega

/-- On a frame of any size: the popup is drawn exactly where both dimensions
leave room for it, and the pairing view wherever its height can be computed. -/
theorem views_safe_iff (width height : UInt16) (confirmation : PendingConfirmation) (qr : Rendered)
    (uri fingerprint : String) (left : Nat) :
    let area := frameArea width height
    (Safe area (drawConfirmation area confirmation) ↔
      20 ≤ width.toNat ∧ width.toNat * 3 < 2 ^ 16 ∧ 10 ≤ height.toNat ∧ height.toNat * 3 < 2 ^ 16) ∧
    (Safe area (drawPairing area qr uri fingerprint left) ∧
        CodeFits area (drawPairing area qr uri fingerprint left) ↔ qr.height.toNat + 4 < 2 ^ 16) := by
  intro area
  have hx : area.x + area.width < 2 ^ 16 := by
    rw [show area.x = 0 from rfl, Nat.zero_add]
    exact width.toNat_lt
  have hy : area.y + area.height < 2 ^ 16 := by
    rw [show area.y = 0 from rfl, Nat.zero_add]
    exact height.toNat_lt
  refine ⟨?_, drawPairing_safe_iff uri fingerprint left hx hy⟩
  rw [drawConfirmation_safe_iff confirmation rfl rfl, ← and_assoc]
  exact Iff.rfl

/-- A terminal of 19 columns, of ordinary height. -/
theorem views_unsafe_narrow : ¬ ∀ (width height : UInt16) (confirmation : PendingConfirmation),
    Safe (frameArea width height) (drawConfirmation (frameArea width height) confirmation) := by
  intro h
  obtain ⟨drawn, hdrawn, -⟩ := h 19 24 ⟨"", "", ""⟩
  have hnone : drawConfirmation (frameArea 19 24) ⟨"", "", ""⟩ = none := by decide +kernel
  rw [hnone] at hdrawn
  cases hdrawn

end Cli

end PenguinSync
