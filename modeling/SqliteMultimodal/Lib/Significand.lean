import Mathlib.Algebra.Order.BigOperators.Group.List
import Mathlib.Algebra.Order.Ring.Int
import Mathlib.Data.Nat.Prime.Basic

namespace Significand

def FitsNat (p n : Nat) : Prop := ∃ k m, n = m * Nat.pow 2 k ∧ m < Nat.pow 2 p

def unit (p n : Nat) : Nat := Nat.pow 2 (Nat.log2 n + 1 - p)

def nearest (u n : Nat) : Nat :=
  if u < 2 * (n % u) ∨ u = 2 * (n % u) ∧ n / u % 2 = 1 then (n / u + 1) * u else n / u * u

def roundNat (p n : Nat) : Nat := nearest (unit p n) n

def Fits (p : Nat) (x : Int) : Prop := FitsNat p x.natAbs

def round (p : Nat) (x : Int) : Int := x.sign * roundNat p x.natAbs

def error (p : Nat) (x : Int) : Int := round p x - x

section Nearest

variable {u n s : Nat}

theorem nearest_eq_iff (hu : 0 < u) (hs : u ∣ s) : nearest u n = s ↔
    (2 * n ≤ 2 * s + u ∧ (2 * n = 2 * s + u → s / u % 2 = 0)) ∧
      2 * s ≤ 2 * n + u ∧ (2 * s = 2 * n + u → s / u % 2 = 0) := by
  obtain ⟨c, rfl⟩ := hs
  have hn := Nat.div_add_mod n u
  have hr := Nat.mod_lt n hu
  rw [nearest, Nat.mul_div_cancel_left c hu]
  generalize n / u = q at *
  generalize n % u = r at *
  have hq : q * u = u * q := Nat.mul_comm q u
  have hq' : (q + 1) * u = u * q + u := by rw [Nat.add_mul, hq, Nat.one_mul]
  rw [hq, hq']
  obtain hlt | rfl | rfl | hgt : c < q ∨ c = q ∨ c = q + 1 ∨ q + 2 ≤ c := by omega
  · have hle := Nat.mul_le_mul_left u (Nat.succ_le_of_lt hlt)
    rw [Nat.mul_succ] at hle
    split <;> omega
  · split <;> omega
  · rw [Nat.mul_succ]
    split <;> omega
  · have hle := Nat.mul_le_mul_left u hgt
    rw [Nat.mul_add] at hle
    split <;> omega

theorem dvd_nearest (u n : Nat) : u ∣ nearest u n := by
  rw [nearest]
  split
  next => exact Nat.dvd_mul_left u _
  next => exact Nat.dvd_mul_left u _

theorem le_nearest {m : Nat} (hu : 0 < u) (hm : u ∣ m) (h : m ≤ n) : m ≤ nearest u n := by
  obtain ⟨c, rfl⟩ := hm
  have hc : u * c ≤ n / u * u := by
    rw [Nat.mul_comm]
    exact Nat.mul_le_mul_right u ((Nat.le_div_iff_mul_le hu).mpr (by rwa [Nat.mul_comm]))
  rw [nearest]
  split
  next => exact hc.trans (Nat.mul_le_mul_right u (Nat.le_succ _))
  next => exact hc

theorem nearest_le {m : Nat} (hu : 0 < u) (hm : u ∣ m) (h : n ≤ m) : nearest u n ≤ m := by
  obtain ⟨c, rfl⟩ := hm
  have hn := Nat.div_add_mod n u
  rw [nearest]
  split
  next hup =>
    have hlt : n / u < c := by
      by_contra hle
      have hmul := Nat.mul_le_mul_left u (not_lt.mp hle)
      omega
    rw [Nat.mul_comm u c]
    exact Nat.mul_le_mul_right u hlt
  next =>
    exact (Nat.div_mul_le_self n u).trans h

theorem nearest_mono {m : Nat} (hu : 0 < u) (h : n ≤ m) : nearest u n ≤ nearest u m := by
  have hn := Nat.div_add_mod n u
  have hm := Nat.div_add_mod m u
  have hr := Nat.mod_lt n hu
  obtain heq | hlt := (Nat.div_le_div_right (c := u) h).eq_or_lt
  · rw [nearest, nearest, heq]
    rw [heq] at hn
    have hstep := Nat.mul_le_mul_right u (Nat.le_succ (m / u))
    split
    next hup =>
      have hup' : u < 2 * (m % u) ∨ u = 2 * (m % u) ∧ m / u % 2 = 1 := by omega
      rw [if_pos hup']
    next =>
      split
      next => exact hstep
      next => exact Nat.le_refl _
  · have hmul : (n / u + 1) * u ≤ m / u * u := Nat.mul_le_mul_right u hlt
    have hswap : (n / u + 1) * u = u * (n / u) + u := by rw [Nat.mul_comm, Nat.mul_succ]
    have habove : n ≤ (n / u + 1) * u := by omega
    have hbelow : (n / u + 1) * u ≤ m := hmul.trans (Nat.div_mul_le_self m u)
    have hdvd : u ∣ (n / u + 1) * u := Nat.dvd_mul_left u _
    exact (nearest_le hu hdvd habove).trans (le_nearest hu hdvd hbelow)

end Nearest

section Nat

variable {p n s : Nat}

theorem unit_pos (p n : Nat) : 0 < unit p n := Nat.pow_pos (by decide)

theorem unit_dvd_pow (hp : 0 < p) : unit p n ∣ Nat.pow 2 (Nat.log2 n) :=
  Nat.pow_dvd_pow 2 (by omega)

theorem pow_log2_le (hn : n ≠ 0) : Nat.pow 2 (Nat.log2 n) ≤ n := Nat.log2_self_le hn

theorem lt_pow_log2 (n : Nat) : n < Nat.pow 2 (Nat.log2 n + 1) := Nat.lt_log2_self

theorem fitsNat_iff : FitsNat p n ↔ unit p n ∣ n := by
  constructor
  · rintro ⟨k, m, hn, hm⟩
    obtain rfl | hne := Nat.eq_zero_or_pos n
    · exact Nat.dvd_zero _
    have hlt : n < Nat.pow 2 (p + k) := by
      have hpow : Nat.pow 2 (p + k) = Nat.pow 2 p * Nat.pow 2 k := Nat.pow_add 2 p k
      rw [hn, hpow]
      exact Nat.mul_lt_mul_of_pos_right hm (Nat.pow_pos (by decide))
    have hlog : Nat.log2 n < p + k := (Nat.log2_lt hne.ne').mpr hlt
    have hdvd : unit p n ∣ Nat.pow 2 k := Nat.pow_dvd_pow 2 (by omega)
    rw [hn] at hdvd ⊢
    exact hdvd.trans (Nat.dvd_mul_left _ m)
  · rintro ⟨c, hc⟩
    refine ⟨Nat.log2 n + 1 - p, c, ?_, ?_⟩
    · rw [Nat.mul_comm]
      exact hc
    · have hlt := lt_pow_log2 n
      have hle : Nat.pow 2 (Nat.log2 n + 1) ≤ unit p n * Nat.pow 2 p := by
        rw [unit]
        have hpow : Nat.pow 2 (Nat.log2 n + 1 - p + p) =
          Nat.pow 2 (Nat.log2 n + 1 - p) * Nat.pow 2 p := Nat.pow_add 2 _ p
        rw [← hpow]
        exact Nat.pow_le_pow_right (by decide) (by omega)
      by_contra hge
      have hmul := Nat.mul_le_mul_left (unit p n) (not_lt.mp hge)
      omega

theorem roundNat_zero (p : Nat) : roundNat p 0 = 0 :=
  Nat.le_zero.mp (nearest_le (unit_pos p 0) (Nat.dvd_zero _) (Nat.le_refl 0))

theorem le_roundNat (hp : 0 < p) (hn : n ≠ 0) : Nat.pow 2 (Nat.log2 n) ≤ roundNat p n :=
  le_nearest (unit_pos p n) (unit_dvd_pow hp) (pow_log2_le hn)

theorem roundNat_le (hp : 0 < p) : roundNat p n ≤ Nat.pow 2 (Nat.log2 n + 1) :=
  nearest_le (unit_pos p n) ((unit_dvd_pow hp).trans (Nat.pow_dvd_pow 2 (Nat.le_succ _)))
    (lt_pow_log2 n).le

theorem roundNat_mono {m : Nat} (hp : 0 < p) (h : n ≤ m) : roundNat p n ≤ roundNat p m := by
  obtain rfl | hn := Nat.eq_zero_or_pos n
  · rw [roundNat_zero]
    exact Nat.zero_le _
  have hm : m ≠ 0 := (hn.trans_le h).ne'
  have hlog : Nat.log2 n ≤ Nat.log2 m :=
    (Nat.le_log2 hm).mpr ((pow_log2_le hn.ne').trans h)
  obtain heq | hlt := hlog.eq_or_lt
  · rw [roundNat, roundNat, unit, unit, heq]
    exact nearest_mono (unit_pos p m) h
  · have hpow : Nat.pow 2 (Nat.log2 n + 1) ≤ Nat.pow 2 (Nat.log2 m) :=
      Nat.pow_le_pow_right (by decide) hlt
    exact ((roundNat_le hp).trans hpow).trans (le_roundNat hp hm)

theorem roundNat_eq_self (h : FitsNat p n) : roundNat p n = n := by
  have hdvd := fitsNat_iff.mp h
  have hpos := unit_pos p n
  rw [roundNat, nearest_eq_iff hpos hdvd]
  omega

def AbsorbsNat (p s : Nat) (δ : Int) : Prop :=
  (2 * δ ≤ unit p s ∧ (2 * δ = unit p s → s / unit p s % 2 = 0)) ∧
    if s = Nat.pow 2 (p - 1) * unit p s then -(unit p s : Int) ≤ 4 * δ
    else -(unit p s : Int) ≤ 2 * δ ∧ (2 * δ = -(unit p s : Int) → s / unit p s % 2 = 0)

theorem pow_mul_unit (h : p ≤ Nat.log2 s + 1) (hp : 0 < p) :
    Nat.pow 2 (p - 1) * unit p s = Nat.pow 2 (Nat.log2 s) := by
  rw [unit]
  have hpow : Nat.pow 2 (p - 1 + (Nat.log2 s + 1 - p)) =
    Nat.pow 2 (p - 1) * Nat.pow 2 (Nat.log2 s + 1 - p) := Nat.pow_add 2 _ _
  rw [← hpow]
  congr 1
  omega

theorem add_le_of_dvd {u a b : Nat} (ha : u ∣ a) (hb : u ∣ b) (h : a < b) : a + u ≤ b := by
  obtain ⟨c, rfl⟩ := ha
  obtain ⟨d, rfl⟩ := hb
  have hlt : c < d := lt_of_mul_lt_mul_left h (Nat.zero_le u)
  have hle := Nat.mul_le_mul_left u (Nat.succ_le_of_lt hlt)
  rwa [Nat.mul_succ] at hle

theorem eq_pow_log2 (h : s = Nat.pow 2 (p - 1) * unit p s) : s = Nat.pow 2 (Nat.log2 s) := by
  have hpow : Nat.pow 2 (p - 1 + (Nat.log2 s + 1 - p)) =
    Nat.pow 2 (p - 1) * Nat.pow 2 (Nat.log2 s + 1 - p) := Nat.pow_add 2 _ _
  rw [unit, ← hpow] at h
  have hlog : Nat.log2 s = p - 1 + (Nat.log2 s + 1 - p) :=
    (congrArg Nat.log2 h).trans (Nat.log2_two_pow (n := _))
  rwa [← hlog] at h

theorem roundNat_eq_iff_same (hlog : Nat.log2 n = Nat.log2 s) (hn : n ≠ 0) :
    roundNat p n = s ↔ FitsNat p s ∧ AbsorbsNat p s (n - s) := by
  have hunit : unit p n = unit p s := by rw [unit, hlog, unit]
  have hpos := unit_pos p s
  have hnearest (hdvd : unit p s ∣ s) :
      nearest (unit p s) n = s ↔ AbsorbsNat p s (n - s) := by
    rw [nearest_eq_iff hpos hdvd, AbsorbsNat]
    split
    next hs =>
      have hle : s ≤ n := (eq_pow_log2 hs).trans_le (hlog ▸ pow_log2_le hn)
      omega
    next => omega
  rw [roundNat, hunit, fitsNat_iff]
  constructor
  · intro h
    have hdvd := dvd_nearest (unit p s) n
    rw [h] at hdvd
    exact ⟨hdvd, (hnearest hdvd).mp h⟩
  · exact fun ⟨hdvd, h⟩ => (hnearest hdvd).mpr h

theorem roundNat_eq_iff_above (hp : 0 < p) (hlog : Nat.log2 s < Nat.log2 n) :
    roundNat p n = s ↔ FitsNat p s ∧ AbsorbsNat p s (n - s) := by
  have hn : n ≠ 0 := by
    rintro rfl
    exact Nat.not_lt_zero _ hlog
  have hpos := unit_pos p s
  have hpow : Nat.pow 2 (Nat.log2 s + 1) ≤ Nat.pow 2 (Nat.log2 n) :=
    Nat.pow_le_pow_right (by decide) hlog
  have hs := lt_pow_log2 s
  refine iff_of_false (fun h => ?_) fun ⟨hfits, habsorbs⟩ => ?_
  · have hle := le_roundNat hp hn
    omega
  · have hle := (add_le_of_dvd (fitsNat_iff.mp hfits)
      ((unit_dvd_pow hp).trans (Nat.pow_dvd_pow 2 (Nat.le_succ _))) hs).trans
        (hpow.trans (pow_log2_le hn))
    have habove := habsorbs.1.1
    omega

theorem unit_eq_one (h : Nat.log2 s < p) : unit p s = 1 := by
  have hzero : Nat.log2 s + 1 - p = 0 := by omega
  rw [unit, hzero, Nat.pow_eq, Nat.pow_zero]

theorem unit_eq_two_mul (h : p ≤ Nat.log2 s) (hlog : Nat.log2 n + 1 = Nat.log2 s) :
    unit p s = 2 * unit p n := by
  have hpow : Nat.pow 2 (Nat.log2 s - p + 1) = Nat.pow 2 (Nat.log2 s - p) * 2 :=
    Nat.pow_succ 2 _
  have hexp : Nat.log2 s + 1 - p = Nat.log2 s - p + 1 := by omega
  rw [unit, unit, hlog, hexp, hpow, Nat.mul_comm]

theorem roundNat_eq_below (hp : 0 < p) (hlog : Nat.log2 n < Nat.log2 s)
    (h : roundNat p n = s) : FitsNat p s ∧ AbsorbsNat p s (n - s) := by
  have hne : s ≠ 0 := by
    rintro rfl
    exact Nat.not_lt_zero _ hlog
  have hle := roundNat_le (n := n) hp
  have hpow : Nat.pow 2 (Nat.log2 n + 1) ≤ Nat.pow 2 (Nat.log2 s) :=
    Nat.pow_le_pow_right (by decide) hlog
  have hge := pow_log2_le hne
  have hs : s = Nat.pow 2 (Nat.log2 s) := by omega
  have hlt := lt_pow_log2 n
  have hsucc : Nat.log2 n + 1 = Nat.log2 s :=
    Nat.pow_right_injective (Nat.le_refl 2) (show Nat.pow 2 _ = Nat.pow 2 _ by omega)
  have hfits : unit p s ∣ s := by
    have hdvd := unit_dvd_pow (n := s) hp
    rwa [← hs] at hdvd
  refine ⟨fitsNat_iff.mpr hfits, ?_⟩
  by_cases hbits : p ≤ Nat.log2 s
  · have hunit := unit_eq_two_mul hbits hsucc
    have hdvd : unit p n ∣ s := (Dvd.intro_left 2 hunit.symm).trans hfits
    have hnear := (nearest_eq_iff (unit_pos p n) hdvd).mp h
    have hpos := unit_pos p s
    rw [AbsorbsNat, if_pos (hs.trans (pow_mul_unit (by omega) hp).symm)]
    omega
  · have hone : unit p n = 1 := unit_eq_one (by omega)
    rw [roundNat_eq_self (fitsNat_iff.mpr (hone ▸ Nat.one_dvd n))] at h
    omega

theorem roundNat_of_absorbs_below (hp : 0 < p) (hlog : Nat.log2 n < Nat.log2 s)
    (hfits : FitsNat p s) (habsorbs : AbsorbsNat p s (n - s)) : roundNat p n = s := by
  have hdvd := fitsNat_iff.mp hfits
  have hne : s ≠ 0 := by
    rintro rfl
    exact Nat.not_lt_zero _ hlog
  have hlt : n < Nat.pow 2 (Nat.log2 s) :=
    (lt_pow_log2 n).trans_le (Nat.pow_le_pow_right (by decide) hlog)
  have hge := pow_log2_le hne
  have hbelow := habsorbs.2
  by_cases hbits : p ≤ Nat.log2 s
  · have hpow := pow_mul_unit (s := s) (by omega) hp
    rw [hpow] at hbelow
    split at hbelow
    next hs =>
      have hdouble : Nat.pow 2 (Nat.log2 s - 1 + 1) = Nat.pow 2 (Nat.log2 s - 1) * 2 :=
        Nat.pow_succ 2 _
      have hunit_le : unit p s ≤ Nat.pow 2 (Nat.log2 s - 1 + 1) :=
        Nat.pow_le_pow_right (by decide) (by omega)
      rw [Nat.sub_add_cancel (by omega : 1 ≤ Nat.log2 s)] at hdouble hunit_le
      have hhalf : Nat.pow 2 (Nat.log2 s - 1) ≤ n := by omega
      have hpos : 0 < Nat.pow 2 (Nat.log2 s - 1) := Nat.pow_pos (by decide)
      have hlog' : Nat.log2 s - 1 ≤ Nat.log2 n := (Nat.le_log2 (by omega)).mpr hhalf
      have hunit := unit_eq_two_mul hbits (show Nat.log2 n + 1 = Nat.log2 s by omega)
      have hquot : s = unit p n * (2 * Nat.pow 2 (p - 1)) := by
        rw [← hs, hunit] at hpow
        rw [← hpow, Nat.mul_comm, Nat.mul_comm 2, Nat.mul_assoc]
      have heven : s / unit p n % 2 = 0 := by
        rw [Nat.div_eq_of_eq_mul_right (unit_pos p n) hquot, Nat.mul_mod_right]
      rw [roundNat, nearest_eq_iff (unit_pos p n) (Dvd.intro _ hquot.symm)]
      omega
    next hs =>
      have hle := add_le_of_dvd (unit_dvd_pow hp) hdvd (lt_of_le_of_ne hge (Ne.symm hs))
      omega
  · have hone : unit p s = 1 := unit_eq_one (by omega)
    rw [hone] at hbelow
    split at hbelow <;> omega

theorem roundNat_eq_iff_below (hp : 0 < p) (hlog : Nat.log2 n < Nat.log2 s) :
    roundNat p n = s ↔ FitsNat p s ∧ AbsorbsNat p s (n - s) :=
  ⟨roundNat_eq_below hp hlog, fun h => roundNat_of_absorbs_below hp hlog h.1 h.2⟩

theorem roundNat_eq_iff (hp : 0 < p) (hn : n ≠ 0) :
    roundNat p n = s ↔ FitsNat p s ∧ AbsorbsNat p s (n - s) := by
  obtain hlog | hlog | hlog := Nat.lt_trichotomy (Nat.log2 n) (Nat.log2 s)
  · exact roundNat_eq_iff_below hp hlog
  · exact roundNat_eq_iff_same hlog hn
  · exact roundNat_eq_iff_above hp hlog

end Nat

section Int

variable {p : Nat} {x y s δ : Int}

def Absorbs (p : Nat) (s δ : Int) : Prop := AbsorbsNat p s.natAbs (if s < 0 then -δ else δ)

theorem round_natCast (p n : Nat) : round p n = roundNat p n := by
  rw [round, Int.natAbs_natCast]
  obtain rfl | hn := Nat.eq_zero_or_pos n
  · rw [roundNat_zero]
    rfl
  · rw [Int.sign_eq_one_of_pos (Int.natCast_pos.mpr hn), Int.one_mul]

theorem round_neg (p : Nat) (x : Int) : round p (-x) = -round p x := by
  rw [round, round, Int.sign_neg, Int.natAbs_neg, Int.neg_mul]

theorem round_eq_self (h : Fits p x) : round p x = x := by
  rw [round, roundNat_eq_self h, Int.sign_mul_natAbs]

theorem round_pos (hp : 0 < p) (hx : 0 < x) : 0 < round p x := by
  obtain ⟨n, rfl⟩ := Int.eq_ofNat_of_zero_le hx.le
  have hn : n ≠ 0 := by omega
  have hpow : 0 < Nat.pow 2 (Nat.log2 n) := Nat.pow_pos (by decide)
  have hle := le_roundNat hp hn
  rw [round_natCast]
  omega

theorem unit_le {n : Nat} (hp : 0 < p) (hn : n ≠ 0) : unit p n ≤ n :=
  (Nat.le_of_dvd (Nat.pow_pos (by decide)) (unit_dvd_pow hp)).trans (pow_log2_le hn)

theorem AbsorbsNat.pos {n : Nat} (hp : 0 < p) (h : AbsorbsNat p n δ) :
    n = 0 ∧ δ = 0 ∨ 0 < n ∧ 0 < n + δ := by
  obtain ⟨⟨habove, -⟩, hbelow⟩ := h
  obtain rfl | hn := Nat.eq_zero_or_pos n
  · have hone : unit p 0 = 1 := unit_eq_one hp
    rw [hone] at habove hbelow
    split at hbelow <;> omega
  · have hle := unit_le hp hn.ne'
    split at hbelow <;> omega

theorem round_zero (p : Nat) : round p 0 = 0 := Int.zero_mul _

theorem absorbs_zero (p n : Nat) : AbsorbsNat p n 0 := by
  have hpos := unit_pos p n
  rw [AbsorbsNat]
  split <;> omega

theorem round_eq_iff_natCast {n : Nat} (hp : 0 < p) :
    round p (n + δ) = n ↔ FitsNat p n ∧ AbsorbsNat p n δ := by
  obtain hx | hx := Int.lt_or_le 0 (n + δ)
  · obtain ⟨m, hm⟩ := Int.eq_ofNat_of_zero_le hx.le
    obtain rfl : δ = m - n := by omega
    rw [hm, round_natCast, Int.natCast_inj, roundNat_eq_iff hp (by omega)]
  · constructor
    · intro h
      have hneg : ¬n + δ < 0 := fun hlt => by
        have hpos := round_pos hp (show 0 < -(n + δ) by omega)
        rw [round_neg, h] at hpos
        omega
      have hzero : n + δ = 0 := by omega
      rw [hzero, round_zero] at h
      obtain rfl : n = 0 := Int.natCast_eq_zero.mp h.symm
      obtain rfl : δ = 0 := by omega
      exact ⟨fitsNat_iff.mpr (Nat.dvd_zero _), absorbs_zero p 0⟩
    · rintro ⟨-, habsorbs⟩
      obtain ⟨rfl, rfl⟩ | ⟨hn, hpos⟩ := habsorbs.pos hp
      · exact round_zero p
      · omega

theorem round_add_eq_iff (hp : 0 < p) : round p (s + δ) = s ↔ Fits p s ∧ Absorbs p s δ := by
  obtain hs | hs := Int.lt_or_le s 0
  · obtain ⟨n, hn⟩ := Int.eq_ofNat_of_zero_le (show 0 ≤ -s by omega)
    obtain rfl : s = -n := by omega
    have hsum : -(n : Int) + δ = -(n + -δ) := by omega
    rw [hsum, round_neg, neg_inj, round_eq_iff_natCast hp, Fits, Absorbs, if_pos hs,
      Int.natAbs_neg, Int.natAbs_natCast]
  · obtain ⟨n, rfl⟩ := Int.eq_ofNat_of_zero_le hs
    rw [round_eq_iff_natCast hp, Fits, Absorbs, if_neg (not_lt.mpr hs), Int.natAbs_natCast]

theorem roundNat_le_pow {n k : Nat} (h : n ≤ Nat.pow 2 k) (hp : 0 < p) :
    roundNat p n ≤ Nat.pow 2 k := by
  have hlog : Nat.log2 n ≤ k := by
    obtain rfl | hn := Nat.eq_zero_or_pos n
    · exact Nat.zero_le k
    · exact (Nat.pow_le_pow_iff_right (Nat.lt_succ_self 1)).mp ((pow_log2_le hn.ne').trans h)
  exact nearest_le (unit_pos p n) ((unit_dvd_pow hp).trans (Nat.pow_dvd_pow 2 hlog)) h

theorem natAbs_round (p : Nat) (x : Int) : (round p x).natAbs = roundNat p x.natAbs := by
  obtain ⟨n, rfl | rfl⟩ := Int.eq_nat_or_neg x
  · rw [round_natCast, Int.natAbs_natCast, Int.natAbs_natCast]
  · rw [round_neg, round_natCast, Int.natAbs_neg, Int.natAbs_neg, Int.natAbs_natCast,
      Int.natAbs_natCast]

theorem round_mono (hp : 0 < p) (h : x ≤ y) : round p x ≤ round p y := by
  obtain ⟨n, rfl | rfl⟩ := Int.eq_nat_or_neg x
  · obtain ⟨m, rfl⟩ := Int.eq_ofNat_of_zero_le ((Int.natCast_nonneg n).trans h)
    rw [round_natCast, round_natCast]
    exact Int.ofNat_le.mpr (roundNat_mono hp (Int.ofNat_le.mp h))
  · obtain ⟨m, rfl | rfl⟩ := Int.eq_nat_or_neg y
    · rw [round_neg, round_natCast, round_natCast]
      omega
    · rw [round_neg, round_neg, round_natCast, round_natCast]
      have hle := roundNat_mono (n := m) (m := n) hp (by omega)
      omega

end Int

section Arithmetic

variable {p : Nat} {a b : Int}

theorem round_eq_add_error (p : Nat) (x : Int) : round p x = x + error p x := by
  rw [error]
  omega

theorem round_add_round_iff (hp : 0 < p) : round p (round p a + round p b) = a + b ↔
    Fits p (a + b) ∧ Absorbs p (a + b) (error p a + error p b) := by
  rw [← round_add_eq_iff hp, round_eq_add_error p a, round_eq_add_error p b]
  have hsum : a + error p a + (b + error p b) = a + b + (error p a + error p b) := by omega
  rw [hsum]

theorem round_sub_round_iff (hp : 0 < p) : round p (round p a - round p b) = a - b ↔
    Fits p (a - b) ∧ Absorbs p (a - b) (error p a - error p b) := by
  rw [← round_add_eq_iff hp, round_eq_add_error p a, round_eq_add_error p b]
  have hsum : a + error p a - (b + error p b) = a - b + (error p a - error p b) := by omega
  rw [hsum]

theorem Fits.of_mul (h : Fits p (a * b)) (ha : a ≠ 0) (hb : b ≠ 0) : Fits p a := by
  obtain ⟨k, m, hmul, hm⟩ := h
  rw [Int.natAbs_mul] at hmul
  have hdvd : a.natAbs ∣ m * Nat.pow 2 k := hmul ▸ Nat.dvd_mul_right _ _
  obtain ⟨c, d, hc, hd, hcd⟩ := Nat.dvd_mul.mp hdvd
  obtain ⟨j, -, rfl⟩ := (Nat.dvd_prime_pow Nat.prime_two).mp hd
  have hne : 0 < m := by
    refine Nat.pos_of_ne_zero fun hzero => ?_
    rw [hzero, Nat.zero_mul, Nat.mul_eq_zero, Int.natAbs_eq_zero, Int.natAbs_eq_zero] at hmul
    exact hmul.elim ha hb
  exact ⟨j, c, hcd.symm, (Nat.le_of_dvd hne hc).trans_lt hm⟩

theorem round_mul_round_iff (hp : 0 < p) :
    round p (round p a * round p b) = a * b ↔ Fits p (a * b) := by
  constructor
  · intro h
    have hsum : round p a * round p b = a * b + (round p a * round p b - a * b) := by omega
    rw [hsum] at h
    exact ((round_add_eq_iff hp).mp h).1
  · intro h
    by_cases ha : a = 0
    · rw [ha, round_zero, Int.zero_mul, Int.zero_mul, round_zero]
    by_cases hb : b = 0
    · rw [hb, round_zero, Int.mul_zero, Int.mul_zero, round_zero]
    have hcomm : Fits p (b * a) := Int.mul_comm a b ▸ h
    rw [round_eq_self (h.of_mul ha hb), round_eq_self (hcomm.of_mul hb ha), round_eq_self h]

theorem tmod_eq_iff {x y r : Int} (hy : y ≠ 0) (hsign : (0 ≤ x ∧ 0 ≤ r) ∨ (x ≤ 0 ∧ r ≤ 0)) :
    x.tmod y = r ↔ y ∣ x - r ∧ r.natAbs < y.natAbs := by
  constructor
  · rintro rfl
    refine ⟨Int.dvd_self_sub_tmod, ?_⟩
    rw [Int.natAbs_tmod]
    exact Nat.mod_lt _ (Int.natAbs_pos.mpr hy)
  · rintro ⟨hdvd, hlt⟩
    have hrest : (x.tmod y).natAbs < y.natAbs := by
      rw [Int.natAbs_tmod]
      exact Nat.mod_lt _ (Int.natAbs_pos.mpr hy)
    have hdiff : y ∣ x.tmod y - r := by
      have hsub := Int.dvd_sub hdvd (Int.dvd_self_sub_tmod (x := x) (m := y))
      rwa [show x - r - (x - x.tmod y) = x.tmod y - r by omega] at hsub
    have hsign' : 0 ≤ x.tmod y ∧ 0 ≤ r ∨ x.tmod y ≤ 0 ∧ r ≤ 0 := by
      obtain ⟨hx, hr⟩ | ⟨hx, hr⟩ := hsign
      · exact .inl ⟨Int.tmod_nonneg y hx, hr⟩
      · have hneg := Int.tmod_nonneg y (show 0 ≤ -x by omega)
        rw [Int.neg_tmod] at hneg
        exact .inr ⟨by omega, hr⟩
    have hzero := Int.eq_zero_of_dvd_of_natAbs_lt_natAbs hdiff (by omega)
    omega

theorem round_nonneg (hp : 0 < p) {x : Int} (hx : 0 ≤ x) : 0 ≤ round p x := by
  obtain rfl | hpos := hx.eq_or_lt
  · exact (round_zero p).ge
  · exact (round_pos hp hpos).le

theorem round_ne_zero (hp : 0 < p) {x : Int} (hx : x ≠ 0) : round p x ≠ 0 := by
  obtain hneg | hpos := Int.lt_or_gt_of_ne hx
  · have hround := round_pos hp (show 0 < -x by omega)
    rw [round_neg] at hround
    omega
  · exact (round_pos hp hpos).ne'

theorem round_tmod_round_iff (hp : 0 < p) (hb : b ≠ 0) :
    (round p a).tmod (round p b) = a.tmod b ↔
      round p b ∣ error p a - a.tdiv b * error p b ∧
        (a.tmod b).natAbs < (round p b).natAbs := by
  have hsign : 0 ≤ round p a ∧ 0 ≤ a.tmod b ∨ round p a ≤ 0 ∧ a.tmod b ≤ 0 := by
    obtain ha | ha := Int.le_total 0 a
    · exact .inl ⟨round_nonneg hp ha, Int.tmod_nonneg b ha⟩
    · have hround := round_nonneg hp (show 0 ≤ -a by omega)
      have hrest := Int.tmod_nonneg b (show 0 ≤ -a by omega)
      rw [round_neg] at hround
      rw [Int.neg_tmod] at hrest
      exact .inr ⟨by omega, by omega⟩
  have hdiv := Int.mul_tdiv_add_tmod a b
  have hsum : round p a - a.tmod b =
      round p b * a.tdiv b + (error p a - a.tdiv b * error p b) := by
    rw [round_eq_add_error p a, round_eq_add_error p b, Int.add_mul, Int.mul_comm (error p b)]
    omega
  rw [tmod_eq_iff (round_ne_zero hp hb) hsign, hsum, Int.dvd_add_right (Int.dvd_mul_right _ _)]

end Arithmetic

section Sums

variable {p : Nat} {s x : Int} {xs : List Int}

def accumulate (p : Nat) (s : Int) (xs : List Int) : Int :=
  xs.foldl (fun s x => round p (s + round p x)) s

def loss (p : Nat) : Int → List Int → Int
  | _, [] => 0
  | s, x :: xs => loss p (round p (s + x)) xs - error p (s + x)

theorem accumulate_eq (h : ∀ x ∈ xs, Fits p x) : accumulate p s xs = s + xs.sum - loss p s xs := by
  induction xs generalizing s with
  | nil =>
    rw [List.sum_nil, loss, Int.add_zero, Int.sub_zero]
    rfl
  | cons x xs ih =>
    have hx := round_eq_self (h x List.mem_cons_self)
    have hstep : accumulate p s (x :: xs) = accumulate p (round p (s + x)) xs := by
      rw [accumulate, List.foldl_cons, hx, accumulate]
    have herror := round_eq_add_error p (s + x)
    rw [hstep, ih fun y hy => h y (List.mem_cons_of_mem x hy), List.sum_cons, loss]
    omega

theorem fits_of_le (hp : 0 < p) (hx : 0 ≤ x) (hle : x ≤ (Nat.pow 2 p : Nat)) : Fits p x := by
  obtain ⟨n, rfl⟩ := Int.eq_ofNat_of_zero_le hx
  obtain heq | hlt := (Int.ofNat_le.mp hle).eq_or_lt
  · refine ⟨p, 1, ?_, ?_⟩
    · rw [Int.natAbs_natCast, heq, Nat.one_mul]
    · exact Nat.one_lt_two_pow hp.ne'
  · exact ⟨0, n, (Nat.mul_one n).symm, hlt⟩

theorem loss_eq_zero (hp : 0 < p) (hs : 0 ≤ s) (hxs : ∀ x ∈ xs, 0 ≤ x)
    (hle : s + xs.sum ≤ (Nat.pow 2 p : Nat)) : loss p s xs = 0 := by
  induction xs generalizing s with
  | nil => rfl
  | cons x xs ih =>
    have hx := hxs x List.mem_cons_self
    have hrest : ∀ y ∈ xs, 0 ≤ y := fun y hy => hxs y (List.mem_cons_of_mem x hy)
    have hsum := List.sum_nonneg hrest
    rw [List.sum_cons] at hle
    have hround : round p (s + x) = s + x := round_eq_self (fits_of_le hp (by omega) (by omega))
    rw [loss, error, hround, ih (by omega) hrest (by omega)]
    omega

end Sums

end Significand
