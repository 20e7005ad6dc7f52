import Outband.Foundation.Scale
import Outband.Hid.Sink
import Outband.Kvm.Reassembly

/-!
# The absolute pointer

Both sinks scale a pointer position by the size of the frame the client sees
(`internal/kvm/hid.go`, `internal/ilo/rc/hid.go` and `input.go`). The AMI sink
clamps the position first, so that each coordinate is in range and, up to a size
of 32767, tells the position. The iLO sink does not, and cuts what comes out to
16 bits: a position beyond the frame is scaled beyond 3000, and one far beyond it
comes round again.

## Implementation notes

Go's `int` is unbounded here; no product exceeds 64 bits while the sizes are
below 2^48. Positions of the client are the 16-bit numbers of its message.
-/

namespace Outband.Hid

open Foundation
open Kvm.Ivtp (Bytes putLE getLE Header)

/-! ### The frame size -/

/-- The frame size a sink holds. Neither dimension is ever zero or less. -/
structure FrameSize where
  w : Int
  h : Int
  w_pos : 0 < w := by decide
  h_pos : 0 < h := by decide

/-- `NewSink`. -/
def FrameSize.new (w h : Int) : FrameSize :=
  if hsize : w ≤ 0 ∨ h ≤ 0 then { w := 1024, h := 768 }
  else { w, h, w_pos := by omega, h_pos := by omega }

def FrameSize.SetFrameSize (s : FrameSize) (w h : Int) : FrameSize :=
  if hsize : w ≤ 0 ∨ h ≤ 0 then s
  else { w, h, w_pos := by omega, h_pos := by omega }

/-! ### The AMI pointer -/

def clamp (v max : Int) : Int := if v < 0 then 0 else if v > max then max else v

/-- A coordinate of `scaleAbs` before it is converted to `int16`. -/
def absCoordinate (v size : Int) : Int :=
  let size := if size ≤ 0 then 1 else size
  (clamp v size * 32767 + size.tdiv 2).tdiv size

def scaleAbs (x y w h : Int) : BitVec 16 × BitVec 16 :=
  (BitVec.ofInt 16 (absCoordinate x w), BitVec.ofInt 16 (absCoordinate y h))

/-- The buttons of an RFB pointer message in the order of USB. -/
def rfbButtonsToUSB (buttons : BitVec 8) : BitVec 8 :=
  (if buttons &&& 0x01 ≠ 0 then 0x01 else 0) ||| (if buttons &&& 0x04 ≠ 0 then 0x02 else 0) |||
    if buttons &&& 0x02 ≠ 0 then 0x04 else 0

def rfbWheel (buttons : BitVec 8) : BitVec 8 :=
  if buttons &&& 0x08 ≠ 0 then 1 else if buttons &&& 0x10 ≠ 0 then 0xff else 0

/-- The AMI packet of a mouse report. -/
def mouseAbsReport (seq : BitVec 32) (btn : BitVec 8) (x y : BitVec 16) (wheel : BitVec 8) :
    Bytes :=
  Header.marshal ⟨opHIDPkt, 39, 0⟩ ++ finishChecksum (iusbHeader 7 49 32 1 seq) ++ [6, btn] ++
    putLE 2 x ++ putLE 2 y ++ [wheel]

/-! ### The iLO pointer -/

def clampDelta (d : Int) : Int := if d < -127 then -127 else if d > 127 then 127 else d

/-- A coordinate of `MouseAbsolute`. -/
def screenCoordinate (v screen : Int) : Int := if screen > 0 then (3000 * v).tdiv screen else 0

/-- The iLO record of a mouse report. -/
def MouseAbsolute (x y screenX screenY dx dy : Int) (buttons : BitVec 8) : Bytes :=
  let wx := screenCoordinate x screenX
  let wy := screenCoordinate y screenY
  [0x02, 0x00, BitVec.ofInt 8 wx, BitVec.ofInt 8 (wx >>> (8 : Nat)), BitVec.ofInt 8 wy,
    BitVec.ofInt 8 (wy >>> (8 : Nat)), BitVec.ofInt 8 (clampDelta dx),
    BitVec.ofInt 8 (clampDelta dy), buttons, 0x00]

/-- The buttons of an RFB pointer message in the order of iLO. -/
def RFBButtonsToILO (rfbButtons : BitVec 8) : BitVec 8 :=
  (if rfbButtons &&& 0x01 ≠ 0 then 0x02 else 0) |||
    (if rfbButtons &&& 0x02 ≠ 0 then 0x04 else 0) ||| if rfbButtons &&& 0x04 ≠ 0 then 0x01 else 0

/-! ### Pointer events -/

/-- What a sink writes for a pointer position. -/
def Device.PointerEvent (size : FrameSize) (seq : BitVec 32) (x y : Int) (buttons : BitVec 8) :
    Device → Bytes
  | ami =>
      let (ax, ay) := scaleAbs x y size.w size.h
      mouseAbsReport seq (rfbButtonsToUSB buttons) ax ay (rfbWheel buttons)
  | ilo => MouseAbsolute x y size.w size.h 0 0 (RFBButtonsToILO buttons)

/-- The coordinates in what is written. -/
def Device.coordinates (report : Bytes) : Device → BitVec 16 × BitVec 16
  | ami => (getLE 16 ((report.drop 41).take 2), getLE 16 ((report.drop 43).take 2))
  | ilo => (getLE 16 ((report.drop 2).take 2), getLE 16 ((report.drop 4).take 2))

/-- The report to the AMI pointer carries what `scaleAbs` computes. -/
theorem coordinates_ami (size : FrameSize) (seq : BitVec 32) (x y : Int) (buttons : BitVec 8) :
    Device.ami.coordinates (Device.ami.PointerEvent size seq x y buttons) =
      scaleAbs x y size.w size.h := by
  change (getLE 16 (putLE 2 (scaleAbs x y size.w size.h).1),
    getLE 16 (putLE 2 (scaleAbs x y size.w size.h).2)) = _
  rw [Kvm.Ivtp.getLE_putLE_two, Kvm.Ivtp.getLE_putLE_two]

/-- Two bytes of a machine integer. -/
theorem getLE_ofInt (n : Int) :
    getLE 16 [BitVec.ofInt 8 n, BitVec.ofInt 8 (n >>> (8 : Nat))] = BitVec.ofInt 16 n := by
  apply BitVec.eq_of_toNat_eq
  simp only [getLE, List.foldr, BitVec.toNat_ofNat, BitVec.toNat_ofInt,
    Int.shiftRight_eq_div_pow]
  omega

theorem coordinates_ilo (size : FrameSize) (seq : BitVec 32) (x y : Int) (buttons : BitVec 8) :
    Device.ilo.coordinates (Device.ilo.PointerEvent size seq x y buttons) =
      (BitVec.ofInt 16 (screenCoordinate x size.w),
        BitVec.ofInt 16 (screenCoordinate y size.h)) := by
  change (getLE 16 [_, _], getLE 16 [_, _]) = _
  rw [getLE_ofInt, getLE_ofInt]

/-! ### Coordinates of the AMI sink -/

theorem clamp_of_le {v max : Int} (hmax : 0 ≤ max) (h : v ≤ 0) : clamp v max = 0 := by
  unfold clamp
  split_ifs <;> omega

theorem clamp_of_ge {v max : Int} (hmax : 0 ≤ max) (h : max ≤ v) : clamp v max = max := by
  unfold clamp
  split_ifs <;> omega

theorem clamp_of_mem {v max : Int} (h : 0 ≤ v) (h' : v ≤ max) : clamp v max = v := by
  unfold clamp
  split_ifs <;> omega

theorem clamp_range {v max : Int} (hmax : 0 ≤ max) : 0 ≤ clamp v max ∧ clamp v max ≤ max := by
  unfold clamp
  split_ifs <;> omega

theorem clamp_mono {v v' max : Int} (hmax : 0 ≤ max) (h : v ≤ v') : clamp v max ≤ clamp v' max := by
  unfold clamp
  split_ifs <;> omega

/-- A coordinate is the clamped position, rescaled; a size of zero or less counts as one. -/
theorem exists_absCoordinate_eq (size : Int) : ∃ w, 0 < w ∧ (0 < size → w = size) ∧
    ∀ v, absCoordinate v size = rescale 32767 w (clamp v w) := by
  refine ⟨if size ≤ 0 then 1 else size, ?_, ?_, ?_⟩
  · split_ifs <;> omega
  · intro h
    rw [if_neg (Int.not_le.mpr h)]
  · intro v
    unfold absCoordinate rescale
    generalize hw : (if size ≤ 0 then 1 else size) = w
    have hpos : 0 < w := by
      rw [← hw]
      split_ifs <;> omega
    obtain ⟨hlow, -⟩ : 0 ≤ clamp v w ∧ clamp v w ≤ w := clamp_range hpos.le
    dsimp only
    rw [Int.tdiv_eq_ediv_of_nonneg hpos.le, Int.tdiv_eq_ediv_of_nonneg (by omega)]

/-- A coordinate is in range, 0 at the lower end and 32767 at the upper one, and it follows the
position; up to a size of 32767 no two positions share one, and the position is found again. -/
structure ScalesAxis (coordinate : Int → Int → Int) : Prop where
  range : ∀ v size, 0 ≤ coordinate v size ∧ coordinate v size ≤ 32767
  low : ∀ v size, 1 ≤ size → v ≤ 0 → coordinate v size = 0
  high : ∀ v size, 1 ≤ size → size ≤ v → coordinate v size = 32767
  mono : ∀ v v' size, v ≤ v' → coordinate v size ≤ coordinate v' size
  inverse : ∀ v size, 1 ≤ size → size ≤ 32767 → 0 ≤ v → v ≤ size →
    round ((coordinate v size * size : ℚ) / 32767) = v
  injective : ∀ v v' size, 1 ≤ size → size ≤ 32767 → 0 ≤ v → v ≤ size → 0 ≤ v' → v' ≤ size →
    coordinate v size = coordinate v' size → v = v'

theorem scalesAxis_absCoordinate : ScalesAxis absCoordinate := by
  refine ⟨?_, ?_, ?_, ?_, ?_, ?_⟩
  · intro v size
    obtain ⟨w, hw, -, heq⟩ := exists_absCoordinate_eq size
    obtain ⟨hlow, hhigh⟩ : 0 ≤ clamp v w ∧ clamp v w ≤ w := clamp_range hw.le
    have hzero := rescale_mono (n := 32767) (by decide) hw hlow
    have hmax := rescale_mono (n := 32767) (by decide) hw hhigh
    rw [rescale_zero hw] at hzero
    rw [rescale_self hw] at hmax
    rw [heq]
    exact ⟨hzero, hmax⟩
  · intro v size hsize hv
    obtain ⟨w, hw, -, heq⟩ := exists_absCoordinate_eq size
    rw [heq, clamp_of_le hw.le hv, rescale_zero hw]
  · intro v size hsize hv
    obtain ⟨w, hw, hsame, heq⟩ := exists_absCoordinate_eq size
    rw [heq, clamp_of_ge hw.le (by rwa [hsame hsize]), rescale_self hw]
  · intro v v' size hv
    obtain ⟨w, hw, -, heq⟩ := exists_absCoordinate_eq size
    rw [heq, heq]
    exact rescale_mono (by decide) hw (clamp_mono hw.le hv)
  · intro v size hsize hmax hlow hhigh
    obtain ⟨w, hw, hsame, heq⟩ := exists_absCoordinate_eq size
    obtain rfl := hsame hsize
    rw [heq, clamp_of_mem hlow hhigh]
    exact_mod_cast round_rescale hw hmax
  · intro v v' size hsize hmax hlow hhigh hlow' hhigh' h
    obtain ⟨w, hw, hsame, heq⟩ := exists_absCoordinate_eq size
    obtain rfl := hsame hsize
    rw [heq, heq, clamp_of_mem hlow hhigh, clamp_of_mem hlow' hhigh'] at h
    exact rescale_injective hw hmax h

/-- The conversion to `int16` does not change a number in range. -/
theorem toInt_ofInt_of_range {n : Int} (hlow : 0 ≤ n) (hhigh : n ≤ 32767) :
    (BitVec.ofInt 16 n).toInt = n := by
  rw [BitVec.toInt_ofInt]
  exact Int.bmod_eq_of_le (by omega) (by omega)

/-- Both coordinates are converted without loss, and both are scaled as `ScalesAxis` says. -/
theorem scaleAbs_spec :
    (∀ x y w h : Int, (scaleAbs x y w h).1.toInt = absCoordinate x w ∧
      (scaleAbs x y w h).2.toInt = absCoordinate y h) ∧
    (∀ y h : Int, ScalesAxis fun x w => (scaleAbs x y w h).1.toInt) ∧
    ∀ x w : Int, ScalesAxis fun y h => (scaleAbs x y w h).2.toInt := by
  have hconvert (v size : Int) :
      (BitVec.ofInt 16 (absCoordinate v size)).toInt = absCoordinate v size := by
    obtain ⟨hlow, hhigh⟩ := scalesAxis_absCoordinate.range v size
    exact toInt_ofInt_of_range hlow hhigh
  refine ⟨fun x y w h => ⟨hconvert x w, hconvert y h⟩, fun y h => ?_, fun x w => ?_⟩
  · change ScalesAxis fun x w => (BitVec.ofInt 16 (absCoordinate x w)).toInt
    simp only [hconvert]
    exact scalesAxis_absCoordinate
  · change ScalesAxis fun y h => (BitVec.ofInt 16 (absCoordinate y h)).toInt
    simp only [hconvert]
    exact scalesAxis_absCoordinate

/-! ### Coordinates of the iLO sink -/

/-- The coordinates the iLO sink sends for a pointer position. -/
def point (size : FrameSize) (x y : Nat) (buttons : BitVec 8) : Nat × Nat :=
  let c := Device.ilo.coordinates (Device.ilo.PointerEvent size 0 x y buttons)
  (c.1.toNat, c.2.toNat)

/-- For positions up to `(X, Y)` the coordinates are at most 3000 and follow the position. -/
structure PointsWithin (size : FrameSize) (X Y : Nat) : Prop where
  range : ∀ x y buttons, x ≤ X → y ≤ Y →
    (point size x y buttons).1 ≤ 3000 ∧ (point size x y buttons).2 ≤ 3000
  mono_x : ∀ x x' y buttons, x ≤ x' → x' ≤ X → y ≤ Y →
    (point size x y buttons).1 ≤ (point size x' y buttons).1
  mono_y : ∀ x y y' buttons, x ≤ X → y ≤ y' → y' ≤ Y →
    (point size x y buttons).2 ≤ (point size x y' buttons).2

/-- A coordinate is the scaled position cut to 16 bits. -/
theorem toNat_screenCoordinate (v : Nat) {size : Int} (hsize : 0 < size) :
    (BitVec.ofInt 16 (screenCoordinate v size)).toNat = 3000 * v / size.toNat % 65536 := by
  obtain ⟨w, rfl⟩ := Int.eq_ofNat_of_zero_le hsize.le
  unfold screenCoordinate
  rw [if_pos hsize, Int.tdiv_eq_ediv_of_nonneg (by omega), BitVec.toNat_ofInt]
  norm_cast

theorem point_eq (size : FrameSize) (x y : Nat) (buttons : BitVec 8) : point size x y buttons =
    (3000 * x / size.w.toNat % 65536, 3000 * y / size.h.toNat % 65536) := by
  unfold point
  rw [coordinates_ilo]
  dsimp only
  rw [toNat_screenCoordinate x size.w_pos, toNat_screenCoordinate y size.h_pos]

/-- In range, the coordinates of an axis follow the position. -/
theorem scaled_mono {w V v v' : Nat} (hw : 0 < w) (hlast : 3000 * V < 3001 * w) (hv : v ≤ v')
    (hV : v' ≤ V) : 3000 * v / w % 65536 ≤ 3000 * v' / w % 65536 := by
  have hle : 3000 * v / w ≤ 3000 * v' / w := Nat.div_le_div_right (Nat.mul_le_mul_left _ hv)
  have hlt : 3000 * v' / w < 3001 := by
    rw [Nat.div_lt_iff_lt_mul hw]
    omega
  rw [Nat.mod_eq_of_lt (by omega), Nat.mod_eq_of_lt (by omega)]
  exact hle

/-- The coordinates are in range and follow the position for all positions up to `(X, Y)` exactly
when `(X, Y)` itself is less than one coordinate beyond the frame. -/
theorem pointsWithin_iff (size : FrameSize) (X Y : Nat) :
    PointsWithin size X Y ↔
      3000 * (X : Int) < 3001 * size.w ∧ 3000 * (Y : Int) < 3001 * size.h := by
  have hw : 0 < size.w.toNat := by
    have := size.w_pos
    omega
  have hh : 0 < size.h.toNat := by
    have := size.h_pos
    omega
  have hcast : (3000 * (X : Int) < 3001 * size.w ∧ 3000 * (Y : Int) < 3001 * size.h) ↔
      3000 * X < (3000 + 1) * size.w.toNat ∧ 3000 * Y < (3000 + 1) * size.h.toNat := by
    omega
  rw [hcast, ← forall_scaled_le_iff hw (show 2 * 3000 + 1 ≤ 65536 by decide),
    ← forall_scaled_le_iff hh (show 2 * 3000 + 1 ≤ 65536 by decide)]
  constructor
  · intro h
    constructor
    · intro x hx
      have := (h.range x 0 0 hx (Nat.zero_le _)).1
      rwa [point_eq] at this
    · intro y hy
      have := (h.range 0 y 0 (Nat.zero_le _) hy).2
      rwa [point_eq] at this
  · rintro ⟨hx, hy⟩
    have hX := (forall_scaled_le_iff hw (show 2 * 3000 + 1 ≤ 65536 by decide)).mp hx
    have hY := (forall_scaled_le_iff hh (show 2 * 3000 + 1 ≤ 65536 by decide)).mp hy
    refine ⟨?_, ?_, ?_⟩
    · intro x y buttons hx' hy'
      rw [point_eq]
      exact ⟨hx x hx', hy y hy'⟩
    · intro x x' y buttons hle hx' _
      rw [point_eq, point_eq]
      exact scaled_mono hw hX hle hx'
    · intro x y y' buttons _ hle hy'
      rw [point_eq, point_eq]
      exact scaled_mono hh hY hle hy'

/-- On a frame of 640 by 480 a pointer at 65535 is sent as 45051, and one at 13982 as 4. -/
theorem point_outside :
    (point { w := 640, h := 480 } 65535 0 0).1 = 45051 ∧
      (point { w := 640, h := 480 } 13982 0 0).1 = 4 ∧
      ¬PointsWithin { w := 640, h := 480 } 65535 65535 := by
  have hfar : (point { w := 640, h := 480 } 65535 0 0).1 = 45051 := by decide +kernel
  refine ⟨hfar, by decide +kernel, fun h => ?_⟩
  have := (h.range 65535 0 0 le_rfl (Nat.zero_le _)).1
  omega

end Outband.Hid
