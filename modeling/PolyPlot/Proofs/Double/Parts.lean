import PolyPlot.Proofs.Double.Bits

namespace PolyPlot.Double

open Float.Model (UnpackedFloat Format)
open Float.Model.UnpackedFloat (Sign)

variable {negative : Bool} {m : Nat} {e : Int} {x : Float}

/-- The greatest exponent of a finite double. -/
def greatestExponent : Int := 971

theorem ofFloat_of_toBits {k f : Nat} (hk : k < 2048) (hf : f < leadingBit)
    (h : x.toBits.toNat = signBits negative + (k * leadingBit + f)) :
    Binary.ofFloat x =
      if k = 2047 then if f = 0 then .infinite negative else .undefined
      else if k = 0 then .finite negative f (-1074)
      else .finite negative (leadingBit + f) ((k : Int) - 1075) := by
  have hexponent : x.toBits.toNat / leadingBit % 2048 = k := by
    rcases signBits_eq negative with hs | hs
    · rw [h, hs]
      simp only [leadingBit] at hf ⊢
      omega
    · rw [h, hs]
      simp only [leadingBit] at hf ⊢
      omega
  have hfraction : x.toBits.toNat % leadingBit = f := by
    rcases signBits_eq negative with hs | hs
    · rw [h, hs]
      simp only [leadingBit] at hf ⊢
      omega
    · rw [h, hs]
      simp only [leadingBit] at hf ⊢
      omega
  have hsign : (x.toBits.toNat / 0x8000000000000000 == 1) = negative := by
    cases negative
    · have hs : signBits false = 0 := rfl
      rw [beq_eq_false_iff_ne, h, hs]
      simp only [leadingBit] at hf ⊢
      omega
    · have hs : signBits true = 0x8000000000000000 := rfl
      rw [beq_iff_eq, h, hs]
      simp only [leadingBit] at hf ⊢
      omega
  unfold Binary.ofFloat
  simp only [hexponent, hfraction, hsign]

/-- The bits of canonical parts below infinity, as an exponent field and a fraction. -/
theorem magnitudeBits_eq (hc : Canonical m e) (he : e ≤ greatestExponent) :
    ∃ k f, k < 2047 ∧ f < leadingBit ∧ min (magnitudeBits m e) infinityBits = k * leadingBit + f ∧
      (k = 0 → m = f ∧ e = -1074) ∧ (k ≠ 0 → m = leadingBit + f ∧ e = (k : Int) - 1075) := by
  obtain ⟨hlt, hleast, hfull⟩ := hc
  unfold greatestExponent at he
  by_cases hsmall : m < leadingBit
  · have he' : e = -1074 := hfull.resolve_left (Nat.not_le_of_lt hsmall)
    subst he'
    exact ⟨0, m, by decide, hsmall, 
      by rw [min_magnitudeBits_of_fraction hsmall, Nat.zero_mul, Nat.zero_add],
      fun _ => ⟨rfl, rfl⟩, fun h => absurd rfl h⟩
  · have hm : m = leadingBit + (m - leadingBit) := by omega
    have hk : e = ((e + 1075).toNat : Int) - 1075 := by omega
    have hf : m - leadingBit < leadingBit := by omega
    refine ⟨(e + 1075).toNat, m - leadingBit, by omega, hf, ?_, fun h => by omega, fun _ => ⟨hm, hk⟩⟩
    have hbits := min_magnitudeBits_of_fields (k := (e + 1075).toNat) (by omega) (by omega) hf
    rw [← hm, ← hk] at hbits
    exact hbits

theorem ofFloat_ofParts (hc : Canonical m e) (he : e ≤ greatestExponent) :
    Binary.ofFloat (ofParts negative m e) = .finite negative m e := by
  obtain ⟨k, f, hk, hf, hbits, hzero, hfull⟩ := magnitudeBits_eq hc he
  have htoBits : (ofParts negative m e).toBits.toNat = signBits negative + (k * leadingBit + f) := by
    rw [ofParts, toBits_ofMagnitudeBits, hbits]
  rw [ofFloat_of_toBits (by omega) hf htoBits, if_neg (by omega)]
  by_cases h : k = 0
  · obtain ⟨rfl, rfl⟩ := hzero h
    rw [if_pos h]
  · obtain ⟨rfl, rfl⟩ := hfull h
    rw [if_neg h]

theorem ofFloat_infinite :
    Binary.ofFloat (ofMagnitudeBits negative infinityBits) = .infinite negative := by
  have htoBits : (ofMagnitudeBits negative infinityBits).toBits.toNat =
      signBits negative + (2047 * leadingBit + 0) := by
    rw [toBits_ofMagnitudeBits, Nat.min_self]
    rfl
  rw [ofFloat_of_toBits (by decide) (by decide) htoBits, if_pos rfl, if_pos rfl]

theorem ofParts_zero (negative : Bool) (e : Int) : ofParts negative 0 e = ofMagnitudeBits negative 0 :=
  rfl

/-- Parts with too great an exponent make an infinity. -/
theorem ofParts_eq_infinite (hm : leadingBit ≤ m) (he : greatestExponent < e) :
    ofParts negative m e = ofMagnitudeBits negative infinityBits := by
  have hmin : min (magnitudeBits m e) infinityBits = infinityBits := by
    apply Nat.min_eq_right
    unfold greatestExponent at he
    rw [magnitudeBits, if_neg (Nat.not_lt_of_le hm)]
    simp only [infinityBits, leadingBit] at hm ⊢
    omega
  apply ext_toBits
  apply UInt64.toNat_inj.mp
  rw [ofParts, toBits_ofMagnitudeBits, toBits_ofMagnitudeBits, hmin, Nat.min_self]

/-- A mantissa that is rounded up to the next power of two is halved. -/
theorem ofParts_carry (he : -1074 ≤ e) :
    ofParts negative (2 * leadingBit) e = ofParts negative leadingBit (e + 1) := by
  have hbits : magnitudeBits (2 * leadingBit) e = magnitudeBits leadingBit (e + 1) := by
    rw [magnitudeBits, magnitudeBits, if_neg (by decide), if_neg (by decide)]
    simp only [leadingBit]
    omega
  rw [ofParts, hbits, ofParts]

/-- The parts of a finite double are canonical. -/
theorem canonical_of_ofFloat (h : Binary.ofFloat x = .finite negative m e) :
    Canonical m e ∧ e ≤ greatestExponent := by
  unfold Binary.ofFloat greatestExponent at *
  dsimp only at h
  have hfraction : x.toBits.toNat % leadingBit < leadingBit := Nat.mod_lt _ (by decide)
  have hexponent : x.toBits.toNat / leadingBit % 2048 < 2048 := Nat.mod_lt _ (by decide)
  split at h
  · split at h <;> cases h
  · next hones =>
    split at h
    · cases h
      exact ⟨canonical_of_fraction hfraction, by decide⟩
    · next hzero =>
      cases h
      exact ⟨canonical_of_fields hzero hfraction, by omega⟩

theorem eq_ofParts_of_ofFloat (h : Binary.ofFloat x = .finite negative m e) :
    x = ofParts negative m e := by
  obtain ⟨hc, he⟩ := canonical_of_ofFloat h
  apply ofFloat_injective
  rw [h, ofFloat_ofParts hc he]

theorem isFinite_iff : x.isFinite = true ↔ ∃ negative m e, Binary.ofFloat x = .finite negative m e := by
  have hfinite : x.isFinite = x.toModel.unpack.isFinite := rfl
  rw [ofFloat_eq_ofUnpacked, hfinite]
  cases x.toModel.unpack with
  | infinity s => simp [UnpackedFloat.isFinite, Binary.ofUnpacked]
  | notANumber => simp [UnpackedFloat.isFinite, Binary.ofUnpacked]
  | zero s => simp [UnpackedFloat.isFinite, Binary.ofUnpacked]
  | finite s m e hm => simp [UnpackedFloat.isFinite, Binary.ofUnpacked]

theorem isFinite_ofParts (hc : Canonical m e) (he : e ≤ greatestExponent) :
    (ofParts negative m e).isFinite = true :=
  isFinite_iff.mpr ⟨negative, m, e, ofFloat_ofParts hc he⟩

theorem ofFloat_signedZero (negative : Bool) :
    Binary.ofFloat (ofMagnitudeBits negative 0) = .finite negative 0 (-1074) := by
  rw [← ofParts_zero negative (-1074), ofFloat_ofParts ⟨by decide, by decide, .inr rfl⟩ (by decide)]

theorem isFinite_signedZero (negative : Bool) : (ofMagnitudeBits negative 0).isFinite = true :=
  isFinite_iff.mpr ⟨_, _, _, ofFloat_signedZero negative⟩

theorem nearest_zero (negative : Bool) (d : Nat) : nearest negative 0 d = ofMagnitudeBits negative 0 :=
  if_pos rfl

end PolyPlot.Double
