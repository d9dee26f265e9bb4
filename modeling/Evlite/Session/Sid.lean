import Mathlib.Data.BitVec

/-!
# Session Ids

The packing of session ids (`session.h`): from the top, 16 reserved bits for the logic layer,
8 bits for the manager's index, 16 bits for the version of the slot and 24 bits for the slot.

## Main results

- `makeSid_toNat`: an id as a number.
- `sidSeq_bind`, `sidVersion_bind`, `sidIndex_bind`: the fields of an id into which a reserved
  value may have been bound.
-/

namespace Evlite

/-! ## The macros of the source -/

/-- `SID_SEQ` -/
def sidSeq (sid : BitVec 64) : BitVec 32 := (sid &&& 0xFFFFFF).setWidth 32

/-- `SID_VERSION` -/
def sidVersion (sid : BitVec 64) : BitVec 16 := ((sid >>> 24) &&& 0xFFFF).setWidth 16

/-- `SID_INDEX`. The subtraction is one of `int`. -/
def sidIndex (sid : BitVec 64) : Int := (((sid >>> (24 + 16)) &&& 0xFF).setWidth 8).toNat - 1

/-- `MAKE_SID` -/
def makeSid (index : BitVec 8) (ver : BitVec 16) (seq : BitVec 32) : BitVec 64 :=
  (((index.setWidth 64 + 1) &&& 0xFF) <<< (24 + 16)) |||
    ((ver.setWidth 64 &&& 0xFFFF) <<< 24) ||| (seq.setWidth 64 &&& 0xFFFFFF)

/-- `BIND_LOGIC_RES` -/
def bindLogicRes (sid : BitVec 64) (res : BitVec 16) : BitVec 64 :=
  sid ||| ((res.setWidth 64 &&& 0xFFFF) <<< (24 + 16 + 8))

/-! ## Their values -/

/-- Masking the low bits of a number is taking it modulo a power of two. -/
private theorem and_mask_toNat (x : BitVec 64) {mask : BitVec 64} (k : Nat)
    (hmask : mask.toNat = 2 ^ k - 1) : (x &&& mask).toNat = x.toNat % 2 ^ k := by
  rw [BitVec.toNat_and, hmask, Nat.and_two_pow_sub_one_eq_mod]

theorem sidSeq_toNat (sid : BitVec 64) : (sidSeq sid).toNat = sid.toNat % 2 ^ 24 := by
  rw [sidSeq, BitVec.toNat_setWidth, and_mask_toNat sid 24 rfl]
  omega

theorem sidVersion_toNat (sid : BitVec 64) :
    (sidVersion sid).toNat = sid.toNat / 2 ^ 24 % 2 ^ 16 := by
  rw [sidVersion, BitVec.toNat_setWidth, and_mask_toNat _ 16 rfl, BitVec.toNat_ushiftRight,
    Nat.shiftRight_eq_div_pow]
  omega

theorem sidIndex_eq (sid : BitVec 64) : sidIndex sid = (sid.toNat / 2 ^ 40 % 2 ^ 8 : Nat) - 1 := by
  rw [sidIndex, BitVec.toNat_setWidth, and_mask_toNat _ 8 rfl, BitVec.toNat_ushiftRight,
    Nat.shiftRight_eq_div_pow]
  omega

/-- Fields that do not overlap add up. -/
private theorem shiftLeft_or_toNat {x y : BitVec 64} {k : Nat} (hx : x.toNat * 2 ^ k < 2 ^ 64)
    (hy : y.toNat < 2 ^ k) : (x <<< k ||| y).toNat = x.toNat * 2 ^ k + y.toNat := by
  rw [BitVec.toNat_or, BitVec.toNat_shiftLeft, Nat.shiftLeft_eq, Nat.mod_eq_of_lt hx,
    ← Nat.shiftLeft_eq, ← Nat.shiftLeft_add_eq_or_of_lt hy]

/-- An id as a number. -/
theorem makeSid_toNat (index : BitVec 8) (ver : BitVec 16) (seq : BitVec 32) :
    (makeSid index ver seq).toNat =
      (index.toNat + 1) % 2 ^ 8 * 2 ^ 40 + (ver.toNat * 2 ^ 24 + seq.toNat % 2 ^ 24) := by
  have hindex : ((index.setWidth 64 + 1) &&& 0xFF).toNat = (index.toNat + 1) % 2 ^ 8 := by
    rw [and_mask_toNat _ 8 rfl, BitVec.toNat_add, BitVec.toNat_setWidth,
      Nat.mod_eq_of_lt (by omega : index.toNat < 2 ^ 64)]
    exact Nat.mod_mod_of_dvd _ (by decide)
  have hver : (ver.setWidth 64 &&& 0xFFFF).toNat = ver.toNat := by
    rw [and_mask_toNat _ 16 rfl, BitVec.toNat_setWidth]
    omega
  have hseq : (seq.setWidth 64 &&& 0xFFFFFF).toNat = seq.toNat % 2 ^ 24 := by
    rw [and_mask_toNat _ 24 rfl, BitVec.toNat_setWidth]
    omega
  have hlow : (((ver.setWidth 64 &&& 0xFFFF) <<< 24) ||| (seq.setWidth 64 &&& 0xFFFFFF)).toNat =
      ver.toNat * 2 ^ 24 + seq.toNat % 2 ^ 24 := by
    rw [shiftLeft_or_toNat (by rw [hver]; omega) (by rw [hseq]; omega), hver, hseq]
  rw [makeSid, BitVec.or_assoc, shiftLeft_or_toNat (by rw [hindex]; omega) (by rw [hlow]; omega),
    hindex, hlow]

/-- Binding a reserved value adds the top field. -/
theorem bindLogicRes_toNat {sid : BitVec 64} (hsid : sid.toNat < 2 ^ 48) (res : BitVec 16) :
    (bindLogicRes sid res).toNat = res.toNat * 2 ^ 48 + sid.toNat := by
  have hres : (res.setWidth 64 &&& 0xFFFF).toNat = res.toNat := by
    rw [and_mask_toNat _ 16 rfl, BitVec.toNat_setWidth]
    omega
  rw [bindLogicRes, BitVec.or_comm, shiftLeft_or_toNat (by rw [hres]; omega) hsid, hres]

theorem makeSid_lt (index : BitVec 8) (ver : BitVec 16) (seq : BitVec 32) :
    (makeSid index ver seq).toNat < 2 ^ 48 := by
  rw [makeSid_toNat]
  omega

/-! ## The fields of an id -/

variable {index : BitVec 8} {ver : BitVec 16} {seq : BitVec 32} (res : BitVec 16)

theorem sidSeq_bind (hseq : seq.toNat < 2 ^ 24) :
    sidSeq (bindLogicRes (makeSid index ver seq) res) = seq := by
  apply BitVec.eq_of_toNat_eq
  rw [sidSeq_toNat, bindLogicRes_toNat (makeSid_lt ..), makeSid_toNat]
  omega

theorem sidVersion_bind : sidVersion (bindLogicRes (makeSid index ver seq) res) = ver := by
  apply BitVec.eq_of_toNat_eq
  rw [sidVersion_toNat, bindLogicRes_toNat (makeSid_lt ..), makeSid_toNat]
  omega

/-- The index comes back unless it is `255`, whose successor does not fit its field. -/
theorem sidIndex_bind (hindex : index.toNat ≤ 254) :
    sidIndex (bindLogicRes (makeSid index ver seq) res) = index.toNat := by
  rw [sidIndex_eq, bindLogicRes_toNat (makeSid_lt ..), makeSid_toNat]
  omega

/-- Binding zero changes nothing. -/
@[simp] theorem bindLogicRes_zero (sid : BitVec 64) : bindLogicRes sid 0 = sid := by
  simp [bindLogicRes]

theorem sidSeq_makeSid (hseq : seq.toNat < 2 ^ 24) : sidSeq (makeSid index ver seq) = seq := by
  rw [← bindLogicRes_zero (makeSid index ver seq), sidSeq_bind 0 hseq]

theorem sidVersion_makeSid : sidVersion (makeSid index ver seq) = ver := by
  rw [← bindLogicRes_zero (makeSid index ver seq), sidVersion_bind 0]

end Evlite
