import Mathlib.Algebra.BigOperators.Ring.List
import Mathlib.Algebra.Order.BigOperators.Group.List
import Mathlib.Data.List.Induction
import Mathlib.Tactic.Linarith
import Mathlib.Tactic.Positivity
import Mathlib.Tactic.FieldSimp
import TradeGate.Model.Filters

/-! Lots that are divided into tiers: whether they add up, and how far a tier is from its share. -/
namespace TradeGate.ExecCore

/-- The exact share of a percentage. -/
def share (parentLots : ℕ) (total percent : ℚ) : ℚ := parentLots*max percent 0/total

/-- A share in whole lots, rounded down with the tolerance. -/
def wholeLots (parentLots : ℕ) (total percent : ℚ) : ℕ := ⌊share parentLots total percent+lotTolerance⌋.toNat

/-- What the rounding takes from the shares of the tiers before the last one. -/
def remainder (parentLots : ℕ) (percents : List ℚ) : ℚ :=
  (percents.dropLast.map fun percent =>
    Int.fract (share parentLots (totalPercent percents) percent+lotTolerance)-lotTolerance).sum

section
variable {parentLots : ℕ} {total percent last : ℚ} {percents : List ℚ} {allocated : ℕ}

theorem share_nonneg (parentLots : ℕ) (percent : ℚ) (ht : 0 ≤ total) : 0 ≤ share parentLots total percent :=
  div_nonneg (mul_nonneg (Nat.cast_nonneg _) (le_max_right _ _)) ht

theorem share_le (parentLots : ℕ) (hmax : max percent 0 ≤ total) (ht : 0<total) : share parentLots total percent ≤ parentLots := by
  rw [share,div_le_iff₀ ht]
  exact mul_le_mul_of_nonneg_left hmax (Nat.cast_nonneg _)

theorem share_of_nonpos (hp : percent ≤ 0) : share parentLots total percent=0 := by
  rw [share,max_eq_right hp,mul_zero,zero_div]

/-- The whole lots are within one lot of the share. -/
theorem wholeLots_cast (ht : 0 ≤ total) : (wholeLots parentLots total percent : ℚ) =
    share parentLots total percent+lotTolerance-Int.fract (share parentLots total percent+lotTolerance) := by
  have hpos : 0 ≤ share parentLots total percent+lotTolerance := by
    have := share_nonneg parentLots percent ht
    have htol : 0<lotTolerance := by norm_num [lotTolerance]
    linarith
  have hfloor : ((⌊share parentLots total percent+lotTolerance⌋.toNat : ℤ) : ℚ) =
      ⌊share parentLots total percent+lotTolerance⌋ := by
    rw [Int.toNat_of_nonneg (Int.floor_nonneg.mpr hpos)]
  rw [wholeLots,← Int.cast_natCast,hfloor,Int.self_sub_fract]

theorem wholeLots_le (hmax : max percent 0 ≤ total) (ht : 0<total) : wholeLots parentLots total percent ≤ parentLots := by
  have hle := share_le parentLots hmax ht
  have hfloor : ⌊share parentLots total percent+lotTolerance⌋<(parentLots : ℤ)+1 := by
    rw [Int.floor_lt]
    push_cast
    have htol : lotTolerance<1 := by norm_num [lotTolerance]
    linarith
  rw [wholeLots]
  omega

/-- The percentages that count are no larger than their sum. -/
theorem le_totalPercent (h : percent ∈ percents) : max percent 0 ≤ totalPercent percents := by
  have hpos : ∀ p ∈ percents.filter fun value => 0<value, (0 : ℚ) ≤ p := by
    intro p hp
    exact (of_decide_eq_true (List.mem_filter.mp hp).2).le
  refine max_le ?_ (List.sum_nonneg hpos)
  by_cases hp : 0<percent
  · exact List.single_le_sum hpos percent (List.mem_filter.mpr ⟨h,by simpa using hp⟩)
  · exact (not_lt.mp hp).trans (List.sum_nonneg hpos)

theorem totalPercent_eq (percents : List ℚ) : totalPercent percents=(percents.map fun p => max p 0).sum := by
  induction percents with
  | nil => rfl
  | cons p ps ih =>
    rw [totalPercent] at ih ⊢
    rw [List.map_cons,List.sum_cons]
    by_cases hp : 0<p
    · rw [List.filter_cons_of_pos (by simpa using hp),List.sum_cons,ih,max_eq_left hp.le]
    · rw [List.filter_cons_of_neg (by simpa using hp),ih,max_eq_right (not_lt.mp hp),zero_add]

/-- The shares add up to the parent order. -/
theorem sum_share (parentLots : ℕ) (ht : 0<totalPercent percents) :
    (percents.map (share parentLots (totalPercent percents))).sum=parentLots := by
  have hsum : (percents.map (share parentLots (totalPercent percents))).sum =
      parentLots/totalPercent percents*(percents.map fun p => max p 0).sum := by
    rw [← List.sum_map_mul_left]
    refine congrArg List.sum (List.map_congr_left fun p _ => ?_)
    rw [share]
    ring
  rw [hsum,← totalPercent_eq,div_mul_cancel₀ _ ht.ne']

/-- What the loop yields: whole lots, and what they leave for the last tier. -/
theorem allocateFrom_eq (hP : parentLots ≤ maxU64) (hle : ∀ p ∈ percents, wholeLots parentLots total p ≤ parentLots) :
    allocateFrom parentLots total allocated (percents ++ [last])=percents.map (wholeLots parentLots total) ++
      [parentLots-(allocated+(percents.map (wholeLots parentLots total)).sum)] := by
  induction percents generalizing allocated with
  | nil => rfl
  | cons p ps ih =>
    obtain ⟨hp,hps⟩ := List.forall_mem_cons.mp hle
    obtain ⟨q,qs,hq⟩ : ∃ q qs, ps ++ [last]=q::qs := List.exists_cons_of_ne_nil (by simp)
    have hlots : floorU64 (parentLots*max p 0/total+lotTolerance)=wholeLots parentLots total p :=
      Nat.min_eq_left (hp.trans hP)
    rw [List.cons_append,hq,allocateFrom,hlots,← hq,ih hps,List.map_cons,List.sum_cons,saturatingAdd]
    congr 3
    omega

theorem sum_wholeLots (parentLots : ℕ) (ht : 0<totalPercent (percents ++ [last])) :
    ((percents.map (wholeLots parentLots (totalPercent (percents ++ [last])))).sum : ℚ) =
      parentLots-share parentLots (totalPercent (percents ++ [last])) last-remainder parentLots (percents ++ [last]) := by
  have hshare := sum_share parentLots ht
  rw [List.map_append,List.sum_append,List.map_singleton,List.sum_singleton] at hshare
  rw [remainder,List.dropLast_concat,← hshare]
  generalize totalPercent (percents ++ [last])=total at ht
  clear hshare
  induction percents with
  | nil => simp
  | cons p ps ih =>
    simp only [List.map_cons,List.sum_cons,Nat.cast_add] at ih ⊢
    rw [ih,wholeLots_cast ht.le]
    ring

end

/-- One count for every tier, adding up to the parent order; none for a tier without a percentage, and for the
others less than the number of tiers off the share. -/
structure Fair (parentLots : ℕ) (percents : List ℚ) (lots : List ℕ) : Prop where
  length_eq : lots.length=percents.length
  sum_eq : lots.sum=parentLots
  zero : ∀ x ∈ percents.zip lots, x.1 ≤ 0 → x.2=0
  near : ∀ x ∈ percents.zip lots, 0<x.1 →
    |(x.2 : ℚ)-share parentLots (totalPercent percents) x.1|<percents.length

section
variable {parentLots : UInt64} {percents : List ℚ} {last : ℚ}

theorem allocateLots_eq (h : 0<totalPercent (percents ++ [last])) :
    allocateLots parentLots (percents ++ [last]) =
      percents.map (wholeLots parentLots.toNat (totalPercent (percents ++ [last]))) ++
        [parentLots.toNat-(percents.map (wholeLots parentLots.toNat (totalPercent (percents ++ [last])))).sum] := by
  have hP : parentLots.toNat ≤ maxU64 := Nat.le_sub_one_of_lt parentLots.toNat_lt
  rw [allocateLots,if_neg (by simp),if_neg (not_le.mpr h),allocateFrom_eq hP,zero_add]
  intro p hp
  exact wholeLots_le (le_totalPercent (List.mem_append_left _ hp)) h

theorem wholeLots_near {total : ℚ} (ht : 0 ≤ total) (parentLots : ℕ) (percent : ℚ) :
    |(wholeLots parentLots total percent : ℚ)-share parentLots total percent|<1 := by
  have htol : 0<lotTolerance ∧ lotTolerance<1 := by norm_num [lotTolerance]
  have hnonneg := Int.fract_nonneg (share parentLots total percent+lotTolerance)
  have hlt := Int.fract_lt_one (share parentLots total percent+lotTolerance)
  rw [wholeLots_cast ht,abs_lt]
  constructor <;> linarith

theorem remainder_bounds (parentLots : ℕ) (percents : List ℚ) (last : ℚ) :
    -(percents.length*lotTolerance) ≤ remainder parentLots (percents ++ [last]) ∧
      remainder parentLots (percents ++ [last]) ≤ percents.length := by
  rw [remainder,List.dropLast_concat]
  generalize totalPercent (percents ++ [last])=total
  have htol : 0<lotTolerance := by norm_num [lotTolerance]
  induction percents with
  | nil => simp
  | cons p ps ih =>
    have hnonneg := Int.fract_nonneg (share parentLots total p+lotTolerance)
    have hlt := Int.fract_lt_one (share parentLots total p+lotTolerance)
    simp only [List.map_cons,List.sum_cons,List.length_cons]
    push_cast
    constructor <;> linarith [ih.1,ih.2]

/-- What the last tier takes. -/
theorem rest_cast (parentLots : UInt64) (h : 0<totalPercent (percents ++ [last]))
    (hle : (percents.map (wholeLots parentLots.toNat (totalPercent (percents ++ [last])))).sum ≤ parentLots.toNat) :
    ((parentLots.toNat-(percents.map (wholeLots parentLots.toNat (totalPercent (percents ++ [last])))).sum : ℕ) : ℚ) =
      share parentLots.toNat (totalPercent (percents ++ [last])) last+remainder parentLots.toNat (percents ++ [last]) := by
  rw [Nat.cast_sub hle,sum_wholeLots parentLots.toNat h]
  ring

theorem mem_zip_concat {α β : Type} {f : α → β} {xs : List α} {last : α} {rest : β} {x : α × β} :
    x ∈ (xs ++ [last]).zip (xs.map f ++ [rest]) ↔ (∃ a ∈ xs, x=(a,f a)) ∨ x=(last,rest) := by
  rw [List.zip_append (by simp),List.mem_append,List.zip_cons_cons,List.zip_nil_left,List.mem_singleton]
  refine or_congr_left ?_
  induction xs with
  | nil => simp
  | cons a xs ih => rw [List.map_cons,List.zip_cons_cons,List.mem_cons,ih,List.exists_mem_cons_iff]

/-- The division is fair if and only if the tolerances do not add up to lots that are not there, and nothing is
left for a last tier without a percentage. -/
theorem fair_iff (h : 0<totalPercent (percents ++ [last])) :
    Fair parentLots.toNat (percents ++ [last]) (allocateLots parentLots (percents ++ [last])) ↔
      0 ≤ share parentLots.toNat (totalPercent (percents ++ [last])) last+remainder parentLots.toNat (percents ++ [last]) ∧
        (last ≤ 0 → remainder parentLots.toNat (percents ++ [last])=0) := by
  have hsum := sum_wholeLots parentLots.toNat h
  have hrest := rest_cast parentLots h
  have hbounds := remainder_bounds parentLots.toNat percents last
  rw [allocateLots_eq h]
  constructor
  · rintro ⟨-,hall,hzero,-⟩
    rw [List.sum_append,List.sum_singleton] at hall
    have hlast := hrest (by omega)
    refine ⟨hlast ▸ Nat.cast_nonneg _,fun hp => ?_⟩
    have hnone : parentLots.toNat-
        (percents.map (wholeLots parentLots.toNat (totalPercent (percents ++ [last])))).sum=0 :=
      hzero (last,_) (mem_zip_concat.mpr (.inr rfl)) hp
    rw [hnone,share_of_nonpos hp,zero_add,Nat.cast_zero] at hlast
    exact hlast.symm
  · rintro ⟨hnonneg,hzero⟩
    have hle : (percents.map (wholeLots parentLots.toNat (totalPercent (percents ++ [last])))).sum ≤ parentLots.toNat := by
      have hcast : ((percents.map (wholeLots parentLots.toNat (totalPercent (percents ++ [last])))).sum : ℚ) ≤
          parentLots.toNat := by linarith
      exact_mod_cast hcast
    have hlast := hrest hle
    refine ⟨by simp,?_,?_,?_⟩
    · rw [List.sum_append,List.sum_singleton]
      omega
    · intro x hx hp
      obtain ⟨p,-,rfl⟩ | rfl := mem_zip_concat.mp hx
      · rw [wholeLots,share_of_nonpos hp]
        norm_num [lotTolerance]
      · rw [hzero hp,share_of_nonpos hp,add_zero] at hlast
        exact_mod_cast hlast
    · intro x hx hp
      have hlen : ((percents ++ [last]).length : ℚ)=percents.length+1 := by simp
      have hcount : (0 : ℚ) ≤ percents.length := Nat.cast_nonneg _
      rw [hlen]
      obtain ⟨p,-,rfl⟩ | rfl := mem_zip_concat.mp hx
      · have hnear := wholeLots_near h.le parentLots.toNat p
        linarith
      · have htail : percents.length*lotTolerance ≤ percents.length :=
          mul_le_of_le_one_right hcount (by norm_num [lotTolerance])
        dsimp only
        rw [hlast,add_sub_cancel_left,abs_lt]
        constructor <;> linarith [hbounds.1,hbounds.2]

/-- Up to 10^10 tiers the tolerances do not add up to a lot. -/
theorem rest_nonneg (parentLots : UInt64) (h : 0<totalPercent (percents ++ [last]))
    (hlen : (percents ++ [last]).length ≤ 10^10) :
    0 ≤ share parentLots.toNat (totalPercent (percents ++ [last])) last+remainder parentLots.toNat (percents ++ [last]) := by
  have hsum := sum_wholeLots parentLots.toNat h
  have hshare := share_nonneg parentLots.toNat last h.le
  have hbound := (remainder_bounds parentLots.toNat percents last).1
  have htol : percents.length*lotTolerance<1 := by
    rw [List.length_append,List.length_singleton] at hlen
    have hcast : (percents.length : ℚ)+1 ≤ 10^10 := by exact_mod_cast hlen
    rw [lotTolerance]
    linarith
  generalize (percents.map (wholeLots parentLots.toNat (totalPercent (percents ++ [last])))).sum=handed at hsum
  have hlt : (handed : ℚ)<parentLots.toNat+1 := by linarith
  have hle : handed ≤ parentLots.toNat := Nat.lt_succ_iff.mp (by exact_mod_cast hlt)
  have hcast : (handed : ℚ) ≤ parentLots.toNat := by exact_mod_cast hle
  linarith

end

/-- Lots are divided fairly just when what is left over is nothing or goes to a tier that counts, as long as the
tolerances do not add up to lots that are not there, for which there have to be more than 10^10 tiers. -/
theorem allocateLots_fair_iff {parentLots : UInt64} {percents : List ℚ} (h : 0<totalPercent percents) :
    (Fair parentLots.toNat percents (allocateLots parentLots percents) ↔ ∀ last ∈ percents.getLast?,
      0 ≤ share parentLots.toNat (totalPercent percents) last+remainder parentLots.toNat percents ∧
        (last ≤ 0 → remainder parentLots.toNat percents=0)) ∧
    (percents.length ≤ 10^10 → (Fair parentLots.toNat percents (allocateLots parentLots percents) ↔
      ∀ last ∈ percents.getLast?, last ≤ 0 → remainder parentLots.toNat percents=0)) := by
  obtain rfl | ⟨percents,last,rfl⟩ := List.eq_nil_or_concat' percents
  · exact absurd h (lt_irrefl _)
  · have hlast : (percents ++ [last]).getLast?=some last := by simp
    simp only [hlast,Option.mem_some_iff,forall_eq']
    refine ⟨fair_iff h,fun hlen => ?_⟩
    rw [fair_iff h,and_iff_right (rest_nonneg parentLots h hlen)]

theorem sevenLots_fair : Fair (UInt64.toNat 7) [50,0,50] (allocateLots 7 [50,0,50]) := by
  refine ((allocateLots_fair_iff ?_).2 ?_).mpr ?_
  · decide +kernel
  · decide
  · decide +kernel

/-- A last tier of nothing gets the lot that is left. -/
theorem zeroTier_gets_lot : allocateLots 7 [50,50,0]=[3,3,1] ∧
    ¬Fair (UInt64.toNat 7) [50,50,0] (allocateLots 7 [50,50,0]) := by
  have hlots : allocateLots 7 [50,50,0]=[3,3,1] := by decide +kernel
  refine ⟨hlots,fun h => ?_⟩
  rw [hlots] at h
  exact absurd (h.zero (0,1) (by simp) le_rfl) one_ne_zero

end TradeGate.ExecCore
