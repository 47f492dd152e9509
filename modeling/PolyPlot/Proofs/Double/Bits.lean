import Mathlib
import PolyPlot.Scalar.Binary

namespace PolyPlot

open Float.Model (UnpackedFloat Format)
open Float.Model.UnpackedFloat (Sign unpackMantissa unpackExponent unpackSign packComponents packedInfinity
  packedNaN packedZero)

/-- Whether a sign is the negative one. -/
def isNegative : Sign → Bool
  | .negative => true
  | .positive => false

/-- The parts of a double as those that `Binary` names. -/
def Binary.ofUnpacked : UnpackedFloat → Binary
  | .infinity s => .infinite (isNegative s)
  | .notANumber => .undefined
  | .zero s => .finite (isNegative s) 0 (-1074)
  | .finite s m e _ => .finite (isNegative s) m e

namespace Double

/-- A mantissa and exponent of a finite double, or of one beyond the largest: fifty-three bits, or fewer
with the least exponent. -/
structure Canonical (m : Nat) (e : Int) : Prop where
  lt : m < 2 * leadingBit
  least : -1074 ≤ e
  full : leadingBit ≤ m ∨ e = -1074

theorem toNat_unpackMantissa (b : BitVec Format.binary64.numBits) :
    (unpackMantissa b).toNat = b.toNat % 2 ^ 52 := by
  simp [unpackMantissa, BitVec.extractLsb, BitVec.extractLsb'_toNat]

theorem toNat_unpackExponent (b : BitVec Format.binary64.numBits) :
    (unpackExponent b).toNat = b.toNat / 2 ^ 52 % 2 ^ 11 := by
  simp [unpackExponent, BitVec.extractLsb, BitVec.extractLsb'_toNat, Nat.shiftRight_eq_div_pow]

theorem toNat_unpackSign (b : BitVec Format.binary64.numBits) :
    (unpackSign b).toNat = b.toNat / 2 ^ 63 := by
  have hb : b.toNat < 2 ^ 64 := b.isLt
  simp [unpackSign, BitVec.extractLsb, BitVec.extractLsb'_toNat, Nat.shiftRight_eq_div_pow]
  omega

theorem toNat_packComponents (s : Sign) (e : BitVec 11) (m : BitVec 52) :
    (packComponents Format.binary64 s e m).toNat =
      s.toBitVec.toNat * 2 ^ 63 + e.toNat * 2 ^ 52 + m.toNat := by
  have he : e.toNat < 2 ^ 11 := e.isLt
  have hm : m.toNat < 2 ^ 52 := m.isLt
  rw [packComponents, BitVec.toNat_append, BitVec.toNat_append, ← Nat.shiftLeft_add_eq_or_of_lt hm,
    ← Nat.shiftLeft_add_eq_or_of_lt he, Nat.shiftLeft_eq, Nat.shiftLeft_eq]
  omega

theorem toNat_toBitVec (s : Sign) : s.toBitVec.toNat = if isNegative s then 1 else 0 := by
  cases s <;> rfl

theorem isNegative_ofBitVec (b : BitVec 1) : isNegative (.ofBitVec b) = (b.toNat == 1) := by
  revert b
  decide

theorem toBitVec_ofBitVec (b : BitVec 1) : (Sign.ofBitVec b).toBitVec = b := by
  revert b
  decide

section Fields

variable (b : BitVec Format.binary64.numBits)

theorem unpackExponent_eq_ones : unpackExponent b = -1#_ ↔ b.toNat / 2 ^ 52 % 2 ^ 11 = 2047 := by
  rw [← BitVec.toNat_inj, toNat_unpackExponent]
  rfl

theorem unpackExponent_eq_zero : unpackExponent b = 0#_ ↔ b.toNat / 2 ^ 52 % 2 ^ 11 = 0 := by
  rw [← BitVec.toNat_inj, toNat_unpackExponent]
  rfl

theorem unpackMantissa_eq_zero : unpackMantissa b = 0#_ ↔ b.toNat % 2 ^ 52 = 0 := by
  rw [← BitVec.toNat_inj, toNat_unpackMantissa]
  rfl

theorem toNat_implicit_append (m : BitVec 52) : (1#1 ++ m).toNat = leadingBit + m.toNat := by
  have hm : m.toNat < 2 ^ 52 := m.isLt
  rw [BitVec.toNat_append, ← Nat.shiftLeft_add_eq_or_of_lt hm]
  rfl

/-- Splitting the bits into numbers gives what splitting them into vectors gives. -/
theorem ofUnpacked_unpack : Binary.ofUnpacked (UnpackedFloat.unpack Format.binary64 b) =
    if b.toNat / 2 ^ 52 % 2 ^ 11 = 2047 then
      if b.toNat % 2 ^ 52 = 0 then .infinite (b.toNat / 2 ^ 63 == 1) else .undefined
    else if b.toNat / 2 ^ 52 % 2 ^ 11 = 0 then .finite (b.toNat / 2 ^ 63 == 1) (b.toNat % 2 ^ 52) (-1074)
    else .finite (b.toNat / 2 ^ 63 == 1) (leadingBit + b.toNat % 2 ^ 52)
      ((b.toNat / 2 ^ 52 % 2 ^ 11 : Nat) - 1075) := by
  have hsign : isNegative (.ofBitVec (unpackSign b)) = (b.toNat / 2 ^ 63 == 1) := by
    rw [isNegative_ofBitVec, toNat_unpackSign]
  unfold UnpackedFloat.unpack
  dsimp only
  split
  · next hones =>
    rw [if_pos ((unpackExponent_eq_ones b).mp hones)]
    split
    · next hnone => rw [if_pos ((unpackMantissa_eq_zero b).mp hnone), Binary.ofUnpacked, hsign]
    · next hsome => rw [if_neg (mt (unpackMantissa_eq_zero b).mpr hsome), Binary.ofUnpacked]
  · next hones =>
    rw [if_neg (mt (unpackExponent_eq_ones b).mpr hones)]
    split
    · next hzero =>
      have hzero' := (unpackExponent_eq_zero b).mp hzero
      rw [if_pos hzero']
      split
      · next hnone => rw [Binary.ofUnpacked, hsign, (unpackMantissa_eq_zero b).mp hnone]
      · rw [Binary.ofUnpacked, hsign, toNat_unpackMantissa, toNat_unpackExponent, hzero']
        rfl
    · next hzero =>
      rw [if_neg (mt (unpackExponent_eq_zero b).mpr hzero), Binary.ofUnpacked, hsign,
        toNat_implicit_append, toNat_unpackMantissa, toNat_unpackExponent]
      rfl

end Fields

theorem ofFloat_eq_ofUnpacked (x : Float) : Binary.ofFloat x = .ofUnpacked x.toModel.unpack :=
  (ofUnpacked_unpack x.toBits.toBitVec).symm

/-- The bits of a sign, in the place where a double has it. -/
def signBits (negative : Bool) : Nat :=
  if negative then 0x8000000000000000 else 0

theorem toNat_packComponents_of_lt {s : Sign} {e m : Nat} (he : e < 2048) (hm : m < leadingBit) :
    (packComponents Format.binary64 s (BitVec.ofNat _ e) (BitVec.ofNat _ m)).toNat =
      signBits (isNegative s) + e * leadingBit + m := by
  rw [toNat_packComponents, toNat_toBitVec, BitVec.toNat_ofNat, BitVec.toNat_ofNat]
  simp only [leadingBit] at hm
  rw [Nat.mod_eq_of_lt (by simpa using he), Nat.mod_eq_of_lt (by simpa using hm)]
  cases s <;> simp [isNegative, signBits, leadingBit]

theorem toNat_packedInfinity (s : Sign) :
    (packedInfinity Format.binary64 s).toNat = signBits (isNegative s) + infinityBits := by
  cases s <;> rfl

theorem toNat_packedZero (s : Sign) :
    (packedZero Format.binary64 s).toNat = signBits (isNegative s) := by
  cases s <;> rfl

theorem log2_eq_iff {m : Nat} (hm : 0 < m) (hlt : m < 2 * leadingBit) :
    m.log2 + 1 = Format.binary64.mantissaBits ↔ leadingBit ≤ m := by
  have hupper : m.log2 < 53 := (Nat.log2_lt (Nat.ne_of_gt hm)).mpr (by simpa [leadingBit] using hlt)
  have hlower : 52 ≤ m.log2 ↔ leadingBit ≤ m := Nat.le_log2 (Nat.ne_of_gt hm)
  have hbits : Format.binary64.mantissaBits = 53 := rfl
  omega

/-- The bits of a canonical mantissa and exponent; those of infinity, if the exponent is too great. -/
theorem toNat_pack_finite {s : Sign} {m : Nat} {e : Int} {hm : 0 < m} (hc : Canonical m e) :
    (UnpackedFloat.pack Format.binary64 (.finite s m e hm)).toNat =
      signBits (isNegative s) + min (magnitudeBits m e) infinityBits := by
  obtain ⟨hlt, hleast, hfull⟩ := hc
  have hbias : (e + Format.binary64.exponentBias + Format.binary64.mantissaBitsWithoutImplicit).toNat =
      (e + 1075).toNat := by
    rw [Int.add_assoc]
    rfl
  have hpower : 2 ^ Format.binary64.exponentBits = 2048 := rfl
  simp only [UnpackedFloat.pack, hbias, hpower, log2_eq_iff hm hlt, magnitudeBits]
  split
  · next hover =>
    have hfull' : ¬ m < leadingBit := by
      simp only [leadingBit] at hfull ⊢
      omega
    rw [toNat_packedInfinity, if_neg hfull', Nat.min_eq_right]
    simp only [infinityBits, leadingBit] at hfull' ⊢
    omega
  · next hover =>
    split
    · next hnormal =>
      have hsplit : BitVec.ofNat 52 m = BitVec.ofNat 52 (m - leadingBit) := by
        apply BitVec.eq_of_toNat_eq
        rw [BitVec.toNat_ofNat, BitVec.toNat_ofNat]
        simp only [leadingBit] at hnormal hlt ⊢
        omega
      have hmin : min ((e + 1074).toNat * leadingBit + m) infinityBits =
          (e + 1074).toNat * leadingBit + m := by
        apply Nat.min_eq_left
        simp only [infinityBits, leadingBit] at hlt ⊢
        omega
      rw [if_neg (by omega), hmin, hsplit,
        toNat_packComponents_of_lt (by omega) (by simp only [leadingBit] at hlt ⊢; omega)]
      simp only [leadingBit] at hnormal hlt ⊢
      omega
    · next hsubnormal =>
      have hmin : min m infinityBits = m := by
        apply Nat.min_eq_left
        simp only [infinityBits, leadingBit] at hlt ⊢
        omega
      have hzero : BitVec.ofNat Format.binary64.exponentBits 0 = BitVec.ofNat 11 0 := rfl
      rw [if_pos (by omega), hmin, hzero, toNat_packComponents_of_lt (by decide) (by omega)]
      omega

theorem canonical_of_fraction {f : Nat} (hf : f < leadingBit) : Canonical f (-1074) :=
  ⟨Nat.lt_of_lt_of_le hf (by decide), Int.le_refl _, .inr rfl⟩

theorem min_magnitudeBits_of_fraction {f : Nat} (hf : f < leadingBit) :
    min (magnitudeBits f (-1074)) infinityBits = f := by
  rw [magnitudeBits, if_pos hf]
  exact Nat.min_eq_left (Nat.le_of_lt (Nat.lt_of_lt_of_le hf (by decide)))

theorem canonical_of_fields {k f : Nat} (hk : k ≠ 0) (hf : f < leadingBit) :
    Canonical (leadingBit + f) ((k : Int) - 1075) :=
  ⟨by omega, by omega, .inl (Nat.le_add_right _ _)⟩

theorem min_magnitudeBits_of_fields {k f : Nat} (hk : k ≠ 0) (hmost : k < 2047) (hf : f < leadingBit) :
    min (magnitudeBits (leadingBit + f) ((k : Int) - 1075)) infinityBits = k * leadingBit + f := by
  have hshift : ((k : Int) - 1075 + 1074).toNat = k - 1 := by omega
  rw [magnitudeBits, if_neg (by omega), hshift]
  simp only [infinityBits, leadingBit] at hf ⊢
  omega

theorem packComponents_unpack (b : BitVec Format.binary64.numBits) :
    packComponents Format.binary64 (.ofBitVec (unpackSign b)) (unpackExponent b) (unpackMantissa b) =
      b := by
  have hb : b.toNat < 2 ^ 64 := b.isLt
  apply BitVec.eq_of_toNat_eq
  rw [toNat_packComponents, toBitVec_ofBitVec, toNat_unpackSign, toNat_unpackExponent,
    toNat_unpackMantissa]
  omega

theorem signBits_unpackSign (b : BitVec Format.binary64.numBits) :
    signBits (isNegative (.ofBitVec (unpackSign b))) = b.toNat / 2 ^ 63 * 2 ^ 63 := by
  have hwhole : b.toNat < 2 ^ 64 := b.isLt
  rw [isNegative_ofBitVec, toNat_unpackSign, signBits]
  split
  · next h =>
    have hone := eq_of_beq h
    omega
  · next h =>
    have hne : b.toNat / 2 ^ 63 ≠ 1 := fun h' => h (beq_iff_eq.mpr h')
    omega

theorem toNat_fields (b : BitVec Format.binary64.numBits) :
    b.toNat / 2 ^ 63 * 2 ^ 63 + (b.toNat / 2 ^ 52 % 2 ^ 11 * leadingBit + b.toNat % 2 ^ 52) = b.toNat := by
  have hwhole : b.toNat < 2 ^ 64 := b.isLt
  simp only [leadingBit]
  omega

/-- Without exponent bits the fraction is the whole mantissa. -/
theorem pack_subnormal {b : BitVec Format.binary64.numBits} (hzero : b.toNat / 2 ^ 52 % 2 ^ 11 = 0)
    {hm : 0 < (unpackMantissa b).toNat} :
    UnpackedFloat.pack Format.binary64
      (.finite (.ofBitVec (unpackSign b)) (unpackMantissa b).toNat (-1074) hm) = b := by
  have hfields := toNat_fields b
  have hfraction : b.toNat % 2 ^ 52 < leadingBit := Nat.mod_lt _ (by decide)
  rw [← toNat_unpackMantissa] at hfraction hfields
  rw [hzero, Nat.zero_mul, Nat.zero_add] at hfields
  apply BitVec.eq_of_toNat_eq
  rw [toNat_pack_finite (canonical_of_fraction hfraction), min_magnitudeBits_of_fraction hfraction,
    signBits_unpackSign, hfields]

/-- With exponent bits a leading bit stands in front of the fraction. -/
theorem pack_normal {b : BitVec Format.binary64.numBits} (hzero : b.toNat / 2 ^ 52 % 2 ^ 11 ≠ 0)
    (hones : b.toNat / 2 ^ 52 % 2 ^ 11 ≠ 2047) {hm : 0 < (1#1 ++ unpackMantissa b).toNat} :
    UnpackedFloat.pack Format.binary64 (.finite (.ofBitVec (unpackSign b))
      (1#1 ++ unpackMantissa b).toNat ((b.toNat / 2 ^ 52 % 2 ^ 11 : Nat) - 1075) hm) = b := by
  have hfraction : b.toNat % 2 ^ 52 < leadingBit := Nat.mod_lt _ (by decide)
  have hmantissa : (1#1 ++ unpackMantissa b).toNat = leadingBit + b.toNat % 2 ^ 52 := by
    rw [toNat_implicit_append, toNat_unpackMantissa]
  have hmost : b.toNat / 2 ^ 52 % 2 ^ 11 < 2047 :=
    Nat.lt_of_le_of_ne (Nat.le_of_lt_succ (Nat.mod_lt _ (by decide))) hones
  apply BitVec.eq_of_toNat_eq
  rw [toNat_pack_finite (by rw [hmantissa]; exact canonical_of_fields hzero hfraction), hmantissa,
    min_magnitudeBits_of_fields hzero hmost hfraction, signBits_unpackSign, toNat_fields]

/-- Bits are packed as they were unpacked, if an undefined value has its one representation. -/
theorem pack_unpack {b : BitVec Format.binary64.numBits} (hb : Format.binary64.Valid b) :
    UnpackedFloat.pack Format.binary64 (UnpackedFloat.unpack Format.binary64 b) = b := by
  have hcomponents := packComponents_unpack b
  unfold UnpackedFloat.unpack
  dsimp only
  split
  · next hones =>
    split
    · next hnone =>
      rw [hones, hnone] at hcomponents
      exact hcomponents
    · next hsome => rw [UnpackedFloat.pack, ← hb.eq_packedNaN hones hsome]
  · next hones =>
    have hones' := mt (unpackExponent_eq_ones b).mpr hones
    split
    · next hzero =>
      have hzero' := (unpackExponent_eq_zero b).mp hzero
      split
      · next hnone =>
        rw [hzero, hnone] at hcomponents
        exact hcomponents
      · next hsome =>
        have hexponent : ((unpackExponent b).toNat : Int) -
            (Format.binary64.exponentBias + Format.binary64.mantissaBitsWithoutImplicit) + 1 = -1074 := by
          rw [toNat_unpackExponent, hzero']
          rfl
        rw [hexponent]
        exact pack_subnormal hzero'
    · next hzero =>
      have hzero' := mt (unpackExponent_eq_zero b).mpr hzero
      have hexponent : ((unpackExponent b).toNat : Int) -
          (Format.binary64.exponentBias + Format.binary64.mantissaBitsWithoutImplicit) =
            (b.toNat / 2 ^ 52 % 2 ^ 11 : Nat) - 1075 := by
        rw [toNat_unpackExponent]
        rfl
      rw [hexponent]
      exact pack_normal hzero' hones'

theorem ext_toBits {x y : Float} (h : x.toBits = y.toBits) : x = y := by
  obtain ⟨⟨b, hb⟩⟩ := x
  obtain ⟨⟨b', hb'⟩⟩ := y
  obtain rfl : b = b' := h
  rfl

theorem ofModel_pack_unpack (x : Float) : Float.ofModel (.pack x.toModel.unpack) = x := by
  apply ext_toBits
  apply UInt64.toBitVec_inj.mp
  exact pack_unpack x.toModel.valid

theorem toBits_ofBits {w : UInt64} (hw : Format.binary64.Valid w.toBitVec) :
    (Float.ofBits w).toBits = w := by
  apply UInt64.toBitVec_inj.mp
  exact pack_unpack hw

theorem ofUnpacked_injective {u u' : UnpackedFloat} (h : Binary.ofUnpacked u = .ofUnpacked u') :
    u = u' := by
  have hsign {s s' : Sign} (h : isNegative s = isNegative s') : s = s' := by
    cases s <;> cases s' <;> first | rfl | cases h
  cases u with
  | infinity s =>
    cases u' with
    | infinity s' => rw [hsign (Binary.infinite.inj h)]
    | _ => cases h
  | notANumber =>
    cases u' with
    | notANumber => rfl
    | _ => cases h
  | zero s =>
    cases u' with
    | zero s' => rw [hsign (Binary.finite.inj h).1]
    | finite s' m' e' hm' =>
      have hm := (Binary.finite.inj h).2.1
      omega
    | _ => cases h
  | finite s m e hm =>
    cases u' with
    | finite s' m' e' hm' =>
      obtain ⟨hs, rfl, rfl⟩ := Binary.finite.inj h
      rw [hsign hs]
    | zero s' =>
      have hm' := (Binary.finite.inj h).2.1
      omega
    | _ => cases h

/-- A double is determined by what it stands for, the sign of zero included. -/
theorem ofFloat_injective {x y : Float} (h : Binary.ofFloat x = .ofFloat y) : x = y := by
  rw [ofFloat_eq_ofUnpacked, ofFloat_eq_ofUnpacked] at h
  rw [← ofModel_pack_unpack x, ofUnpacked_injective h, ofModel_pack_unpack]

theorem signBits_eq (negative : Bool) :
    signBits negative = 0 ∨ signBits negative = 0x8000000000000000 := by
  cases negative
  · exact .inl rfl
  · exact .inr rfl

theorem toNat_signed_bits {negative : Bool} {bits : Nat} (hbits : bits ≤ infinityBits) :
    (UInt64.ofNat (signBits negative + bits)).toNat = signBits negative + bits := by
  apply UInt64.toNat_ofNat_of_lt'
  have hsign := signBits_eq negative
  simp only [infinityBits, UInt64.size] at hbits ⊢
  omega

theorem valid_of_le_infinityBits {negative : Bool} {bits : Nat} (hbits : bits ≤ infinityBits) :
    Format.binary64.Valid (UInt64.ofNat (signBits negative + bits)).toBitVec := by
  refine ⟨fun hones hsome => ?_⟩
  have hvalue : (UInt64.ofNat (signBits negative + bits)).toBitVec.toNat = signBits negative + bits :=
    toNat_signed_bits hbits
  have hones' := (unpackExponent_eq_ones _).mp hones
  have hsome' := mt (unpackMantissa_eq_zero _).mpr hsome
  rw [hvalue] at hones' hsome'
  have hsign := signBits_eq negative
  clear hvalue
  simp only [infinityBits] at hbits
  omega

theorem toBits_ofMagnitudeBits (negative : Bool) (bits : Nat) :
    (ofMagnitudeBits negative bits).toBits.toNat = signBits negative + min bits infinityBits := by
  have hle : min bits infinityBits ≤ infinityBits := Nat.min_le_right _ _
  have hsigned :
      (if negative then 0x8000000000000000 + Nat.min bits infinityBits else Nat.min bits infinityBits) =
      signBits negative + min bits infinityBits := by
    cases negative
    · exact (Nat.zero_add _).symm
    · rfl
  rw [ofMagnitudeBits, hsigned, toBits_ofBits (valid_of_le_infinityBits hle), toNat_signed_bits hle]

/-- Packed arithmetic and exact arithmetic make the same double of a mantissa and an exponent. -/
theorem ofModel_pack_finite {s : Sign} {m : Nat} {e : Int} {hm : 0 < m} (hc : Canonical m e) :
    Float.ofModel (.pack (.finite s m e hm)) = ofParts (isNegative s) m e := by
  apply ext_toBits
  apply UInt64.toNat_inj.mp
  rw [ofParts, toBits_ofMagnitudeBits]
  exact @toNat_pack_finite s m e hm hc

theorem ofModel_pack_zero (s : Sign) :
    Float.ofModel (.pack (.zero s)) = ofMagnitudeBits (isNegative s) 0 := by
  apply ext_toBits
  apply UInt64.toNat_inj.mp
  rw [toBits_ofMagnitudeBits]
  exact toNat_packedZero s

end Double

end PolyPlot
