import Mathlib.Data.List.Basic
import Mathlib.Data.Nat.Notation

/-! Binary search for the last position at which a condition holds, on lists in which the condition
holds up to some position and not from there on. -/
namespace Series

/-- The loop: the positions before `lo` are settled and `found` is the last of them that holds; those
from `hi` on do not hold. -/
def searchLoop (holds : ℕ → Bool) : ℕ → ℕ → ℕ → Option ℕ → Option ℕ
  | 0, _, _, found => found
  | fuel+1, lo, hi, found =>
    if hi ≤ lo then found
    else
      let mid := (lo+(hi-1))/2
      if holds mid then searchLoop holds fuel (mid+1) hi (some mid) else searchLoop holds fuel lo mid found

/-- The last of the elements that satisfies the condition. -/
def lastIndex {α : Type} (p : α → Bool) (xs : List α) : Option ℕ :=
  searchLoop (fun i => (xs[i]?).any p) xs.length 0 xs.length none

/-- The position before `n`, if there is one. -/
def before : ℕ → Option ℕ
  | 0 => none
  | n+1 => some n

theorem searchLoop_eq {holds : ℕ → Bool} {n : ℕ} (h : ∀ i, holds i=decide (i<n)) {fuel : ℕ} (lo hi : ℕ)
    (hfuel : hi-lo ≤ fuel) (hlo : lo ≤ n) (hhi : n ≤ hi) : searchLoop holds fuel lo hi (before lo)=before n := by
  induction fuel generalizing lo hi with
  | zero =>
    have heq : lo=n := by omega
    rw [searchLoop,heq]
  | succ fuel ih =>
    rw [searchLoop]
    by_cases hempty : hi ≤ lo
    · have heq : lo=n := by omega
      rw [if_pos hempty,heq]
    · rw [if_neg hempty]
      dsimp only
      rw [h]
      by_cases hmid : (lo+(hi-1))/2<n
      · rw [decide_eq_true hmid,if_pos rfl]
        exact ih ((lo+(hi-1))/2+1) hi (by omega) (by omega) hhi
      · rw [decide_eq_false hmid,if_neg (by decide)]
        exact ih lo ((lo+(hi-1))/2) (by omega) hlo (by omega)

section
variable {α : Type} {p : α → Bool} {xs ys : List α} {i : ℕ}

/-- What holds of an element holds of those before it. -/
def Initial (p : α → Bool) (xs : List α) : Prop := xs.Pairwise fun x y => p y=true → p x=true

theorem Initial.filter_eq_take (h : Initial p xs) : xs.filter p=xs.take (xs.filter p).length := by
  induction xs with
  | nil => rfl
  | cons x xs ih =>
    obtain ⟨hx,hxs⟩ := List.pairwise_cons.mp h
    by_cases hp : p x=true
    · rw [List.filter_cons_of_pos hp,List.length_cons,List.take_succ_cons,← ih hxs]
    · have hnone : xs.filter p=[] := by
        apply List.filter_eq_nil_iff.mpr
        intro y hy hpy
        exact hp (hx y hy hpy)
      rw [List.filter_cons_of_neg hp,hnone]
      rfl

theorem Initial.holds_iff (h : Initial p xs) (i : ℕ) : (xs[i]?).any p=decide (i<(xs.filter p).length) := by
  induction xs generalizing i with
  | nil => simp
  | cons x xs ih =>
    obtain ⟨hx,hxs⟩ := List.pairwise_cons.mp h
    by_cases hp : p x=true
    · rw [List.filter_cons_of_pos hp,List.length_cons]
      cases i with
      | zero => simp [hp]
      | succ i =>
        rw [List.getElem?_cons_succ,ih hxs]
        simp
    · have hnone : ∀ y ∈ xs, p y=false := by
        intro y hy
        cases hpy : p y with
        | true => exact absurd (hx y hy hpy) hp
        | false => rfl
      have hnil : xs.filter p=[] := List.filter_eq_nil_iff.mpr fun y hy hpy => by simp [hnone y hy] at hpy
      rw [List.filter_cons_of_neg hp,hnil]
      cases i with
      | zero => simpa using hp
      | succ i =>
        rw [List.getElem?_cons_succ]
        cases hi : xs[i]? with
        | none => simp
        | some y => simp [hnone y (List.mem_of_getElem? hi)]

/-- The search finds the end of the part that satisfies the condition. -/
theorem lastIndex_eq (h : Initial p xs) : lastIndex p xs=before (xs.filter p).length := by
  unfold lastIndex
  exact searchLoop_eq h.holds_iff 0 xs.length (by omega) (Nat.zero_le _) (List.length_filter_le p xs)

end
end Series

/-! Computations along a series whose value at a position uses the elements up to there only. -/
namespace Series

variable {α β γ δ : Type}

/-- The value at a position is that of the series that ends there. -/
def Causal (f : List α → ℕ → β) : Prop := ∀ xs i, f (xs.take (i+1)) i=f xs i

/-- Series that coincide up to a position have one value there. -/
theorem Causal.congr {f : List α → ℕ → β} (h : Causal f) {xs ys : List α} {i : ℕ}
    (heq : xs.take (i+1)=ys.take (i+1)) : f xs i=f ys i := by
  rw [← h xs i,heq,h ys i]

theorem take_take_of_le (xs : List α) {i j : ℕ} (h : j ≤ i) : (xs.take (i+1)).take (j+1)=xs.take (j+1) := by
  rw [List.take_take,Nat.min_eq_left (Nat.succ_le_succ h)]

theorem take_congr {xs ys : List α} {n m : ℕ} (h : xs.take n=ys.take n) (hm : m ≤ n) : xs.take m=ys.take m := by
  have htake := congrArg (List.take m) h
  rwa [List.take_take,List.take_take,Nat.min_eq_left hm] at htake

/-- A value at an earlier position. -/
theorem Causal.earlier {f : List α → ℕ → β} (h : Causal f) {k : ℕ → ℕ} (hk : ∀ i, k i ≤ i) :
    Causal fun xs i => f xs (k i) := by
  intro xs i
  exact h.congr (take_take_of_le xs (hk i))

theorem causal_getD (d : α) : Causal fun xs i => xs.getD i d := by
  intro xs i
  dsimp only
  rw [List.getD_eq_getElem?_getD,List.getD_eq_getElem?_getD,List.getElem?_take_of_lt (Nat.lt_succ_self i)]

/-- A window that ends no later than the position. -/
theorem causal_window (g : ℕ → List α → β) (stop start : ℕ → ℕ) (hstop : ∀ i, stop i ≤ i+1) :
    Causal fun xs i => g i ((xs.take (stop i)).drop (start i)) := by
  intro xs i
  dsimp only
  rw [List.take_take,Nat.min_eq_left (hstop i)]

theorem Causal.map {f : List α → ℕ → β} (h : Causal f) (g : ℕ → β → γ) : Causal fun xs i => g i (f xs i) :=
  fun xs i => congrArg (g i) (h xs i)

theorem Causal.map₂ {f : List α → ℕ → β} {f' : List α → ℕ → γ} (h : Causal f) (h' : Causal f')
    (g : ℕ → β → γ → δ) : Causal fun xs i => g i (f xs i) (f' xs i) := by
  intro xs i
  dsimp only
  rw [h xs i,h' xs i]

/-- An accumulator that is passed from position to position. -/
def accumulate (start : β) (next : List α → ℕ → β → β) (xs : List α) : ℕ → β
  | 0 => start
  | i+1 => next xs (i+1) (accumulate start next xs i)

theorem causal_accumulate (start : β) {next : List α → ℕ → β → β} (h : ∀ b, Causal fun xs i => next xs i b) :
    Causal (accumulate start next) := by
  have hle : ∀ xs ys n i, xs.take (n+1)=ys.take (n+1) → i ≤ n →
      accumulate start next xs i=accumulate start next ys i := by
    intro xs ys n i heq hi
    induction i with
    | zero => rfl
    | succ i ih =>
      rw [accumulate,accumulate,ih (Nat.le_of_succ_le hi)]
      exact (h _).congr (take_congr heq (Nat.succ_le_succ hi))
  intro xs i
  exact hle _ _ i i (take_take_of_le xs (Nat.le_refl i)) (Nat.le_refl i)

/-- Series with the same initial part give one value at its end. -/
theorem Causal.lastIndex_congr {f : List α → ℕ → β} (hf : Causal f) {p : α → Bool} {xs ys : List α}
    (hx : Initial p xs) (hy : Initial p ys) (h : xs.filter p=ys.filter p) :
    (lastIndex p xs).map (f xs)=(lastIndex p ys).map (f ys) := by
  have htake := hx.filter_eq_take.symm.trans (h.trans hy.filter_eq_take)
  rw [lastIndex_eq hx,lastIndex_eq hy]
  rw [← h] at htake ⊢
  cases hn : (xs.filter p).length with
  | zero => rfl
  | succ n =>
    rw [hn] at htake
    exact congrArg some (hf.congr htake)

end Series

/-! Series computed from series, position by position, and those of which the beginning depends on the
beginning only. -/
namespace Series

variable {α β γ δ σ : Type}

/-- A value for each position. -/
def along (f : List α → ℕ → β) (xs : List α) : List β := (List.range xs.length).map (f xs)

/-- What a loop carries before a position. -/
def stateAt (start : σ) (body : List α → ℕ → σ → σ × β) (xs : List α) : ℕ → σ
  | 0 => start
  | i+1 => (body xs i (stateAt start body xs i)).1

/-- A loop over the positions that puts out a value at each. -/
def loop (start : σ) (body : List α → ℕ → σ → σ × β) : List α → List β :=
  along fun xs i => (body xs i (stateAt start body xs i)).2

/-- The last elements up to a position, no more than so many. -/
def window (n : ℕ) (xs : List α) (i : ℕ) : List α := (xs.take (i+1)).drop (i+1-n)

@[simp] theorem length_along (f : List α → ℕ → β) (xs : List α) : (along f xs).length=xs.length := by
  simp [along]

@[simp] theorem length_loop (start : σ) (body : List α → ℕ → σ → σ × β) (xs : List α) :
    (loop start body xs).length=xs.length := length_along _ _

theorem getElem?_along (f : List α → ℕ → β) {xs : List α} {i : ℕ} (h : i<xs.length) :
    (along f xs)[i]?=some (f xs i) := by
  simp [along,h]

theorem getElem?_loop (start : σ) (body : List α → ℕ → σ → σ × β) {xs : List α} {i : ℕ} (h : i<xs.length) :
    (loop start body xs)[i]?=some (body xs i (stateAt start body xs i)).2 := getElem?_along _ h

theorem mem_along {f : List α → ℕ → β} {xs : List α} {y : β} :
    y ∈ along f xs ↔ ∃ i<xs.length, f xs i=y := by
  simp [along]

theorem mem_loop {start : σ} {body : List α → ℕ → σ → σ × β} {xs : List α} {y : β} :
    y ∈ loop start body xs ↔ ∃ i<xs.length, (body xs i (stateAt start body xs i)).2=y := mem_along

/-- What a loop carries has what it starts with and each round keeps. -/
theorem stateAt_induction {start : σ} {body : List α → ℕ → σ → σ × β} {xs : List α} {P : ℕ → σ → Prop}
    (h0 : P 0 start) (hstep : ∀ i s, i<xs.length → P i s → P (i+1) (body xs i s).1) {i : ℕ} (hi : i ≤ xs.length) :
    P i (stateAt start body xs i) := by
  induction i with
  | zero => exact h0
  | succ i ih => exact hstep i _ hi (ih (Nat.le_of_succ_le hi))

/-- The beginning of the result is the result of the beginning. -/
def Online (f : List α → List β) : Prop := ∀ xs n, f (xs.take n)=(f xs).take n

theorem Online.getElem? {f : List α → List β} (h : Online f) (xs : List α) (i : ℕ) :
    (f (xs.take (i+1)))[i]?=(f xs)[i]? := by
  rw [h,List.getElem?_take_of_lt (Nat.lt_succ_self i)]

theorem online_id : Online (id : List α → List α) := fun _ _ => rfl

theorem online_map (g : α → β) : Online (List.map g) := fun _ _ => List.map_take

theorem Online.comp {f : List α → List β} {g : List β → List γ} (hg : Online g) (hf : Online f) :
    Online fun xs => g (f xs) := by
  intro xs n
  dsimp only
  rw [hf,hg]

theorem Online.map {f : List α → List β} (hf : Online f) (g : β → γ) : Online fun xs => (f xs).map g :=
  (online_map g).comp hf

theorem Online.zipWith {f : List α → List β} {f' : List α → List γ} (hf : Online f) (hf' : Online f')
    (g : β → γ → δ) : Online fun xs => List.zipWith g (f xs) (f' xs) := by
  intro xs n
  dsimp only
  rw [hf,hf',List.take_zipWith]

theorem Online.zip {f : List α → List β} {f' : List α → List γ} (hf : Online f) (hf' : Online f') :
    Online fun xs => (f xs).zip (f' xs) := hf.zipWith hf' Prod.mk

theorem Online.set {f : List α → List β} (hf : Online f) (i : ℕ) (b : β) : Online fun xs => (f xs).set i b := by
  intro xs n
  dsimp only
  rw [hf,List.take_set]

theorem Causal.online {f : List α → ℕ → β} (h : Causal f) : Online (along f) := by
  intro xs n
  unfold along
  rw [List.length_take,← List.map_take,List.take_range]
  apply List.map_congr_left
  intro i hi
  apply h.congr
  have hlt := List.mem_range.mp hi
  rw [List.take_take,Nat.min_eq_left (by omega)]

theorem causal_stateAt {start : σ} {body : List α → ℕ → σ → σ × β} (h : ∀ s, Causal fun xs i => body xs i s) :
    Causal (stateAt start body) := by
  have hle : ∀ xs ys n i, xs.take (n+1)=ys.take (n+1) → i ≤ n → stateAt start body xs i=stateAt start body ys i := by
    intro xs ys n i heq hi
    induction i with
    | zero => rfl
    | succ i ih =>
      rw [stateAt,stateAt,ih (Nat.le_of_succ_le hi)]
      exact congrArg Prod.fst ((h _).congr (take_congr heq (Nat.succ_le_succ (Nat.le_of_succ_le hi))))
  intro xs i
  exact hle _ _ i i (take_take_of_le xs (Nat.le_refl i)) (Nat.le_refl i)

/-- A loop whose rounds look no further than their position. -/
theorem online_loop {start : σ} {body : List α → ℕ → σ → σ × β} (h : ∀ s, Causal fun xs i => body xs i s) :
    Online (loop start body) := by
  apply Causal.online
  intro xs i
  dsimp only
  rw [causal_stateAt h xs i]
  exact congrArg Prod.snd (h _ xs i)

/-! What a round reads. -/

theorem getD_take (xs : List α) (i : ℕ) (d : α) : (xs.take (i+1)).getD i d=xs.getD i d := causal_getD d xs i

theorem getD_take_sub (xs : List α) (i p : ℕ) (d : α) : (xs.take (i+1)).getD (i-p) d=xs.getD (i-p) d :=
  (causal_getD d).earlier (fun i => Nat.sub_le i p) xs i

theorem window_take (n : ℕ) (xs : List α) (i : ℕ) : window n (xs.take (i+1)) i=window n xs i :=
  causal_window (fun _ w => w) (fun i => i+1) (fun i => i+1-n) (fun _ => Nat.le_refl _) xs i

theorem mem_window {xs : List α} {x : α} {n i : ℕ} (hn : 0<n) (hx : xs[i]?=some x) : x ∈ window n xs i := by
  have hi := List.getElem?_eq_some_iff.mp hx
  obtain ⟨hi,-⟩ := hi
  apply List.mem_of_getElem? (i := n-1-(n-(i+1)))
  unfold window
  rw [List.getElem?_drop,List.getElem?_take_of_lt (by omega)]
  rw [show i+1-n+(n-1-(n-(i+1)))=i by omega]
  exact hx

theorem window_map (g : α → β) (n : ℕ) (xs : List α) (i : ℕ) : window n (xs.map g) i=(window n xs i).map g := by
  unfold window
  rw [← List.map_take,← List.map_drop]

theorem mem_of_mem_window {xs : List α} {x : α} {n i : ℕ} (h : x ∈ window n xs i) : x ∈ xs :=
  List.mem_of_mem_take (List.mem_of_mem_drop h)

end Series
