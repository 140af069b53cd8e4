import TradeGate.Js.Value

/-! Arithmetic on numbers that may be infinite or no numbers at all, and texts of the results. -/
namespace Js.Num

/-- `a < b`; false where one of them is no number. -/
def lt : Num → Num → Prop
  | .fin p, .fin q => p<q
  | .inf negative, .fin _ => negative=true
  | .fin _, .inf negative => negative=false
  | .inf a, .inf b => a=true ∧ b=false
  | _, _ => False

instance : (a b : Num) → Decidable (a.lt b)
  | .fin p, .fin q => inferInstanceAs (Decidable (p<q))
  | .inf negative, .fin _ => inferInstanceAs (Decidable (negative=true))
  | .fin _, .inf negative => inferInstanceAs (Decidable (negative=false))
  | .inf a, .inf b => inferInstanceAs (Decidable (a=true ∧ b=false))
  | .fin _, .nan | .inf _, .nan | .nan, .fin _ | .nan, .inf _ | .nan, .nan => .isFalse id

/-- `a <= b`. -/
def le (a b : Num) : Prop := a.lt b ∨ a=b ∧ a ≠ .nan

instance (a b : Num) : Decidable (a.le b) := inferInstanceAs (Decidable (_ ∨ _ ∧ _))

/-- `Math.min(a, b)`. -/
def min (a b : Num) : Num := if a=.nan ∨ b=.nan then .nan else if b.lt a then b else a

/-- `Math.max(a, b)`. -/
def max (a b : Num) : Num := if a=.nan ∨ b=.nan then .nan else if a.lt b then b else a

def neg : Num → Num
  | .nan => .nan
  | .inf negative => .inf !negative
  | .fin q => .fin (-q)

def abs : Num → Num
  | .nan => .nan
  | .inf _ => .inf false
  | .fin q => .fin |q|

def add : Num → Num → Num
  | .fin p, .fin q => .fin (p+q)
  | .inf a, .fin _ => .inf a
  | .fin _, .inf b => .inf b
  | .inf a, .inf b => if a=b then .inf a else .nan
  | _, _ => .nan

def sub (a b : Num) : Num := a.add b.neg

/-- `a / b`. -/
def div : Num → Num → Num
  | .fin p, .fin q => if q=0 then if p=0 then .nan else .inf (p<0) else .fin (p/q)
  | .inf a, .fin q => .inf (xor a (q<0))
  | .fin _, .inf _ => .fin 0
  | _, _ => .nan

/-- `a * q`, for a factor other than zero. -/
def scale : Num → ℚ → Num
  | .nan, _ => .nan
  | .inf a, q => .inf (xor a (q<0))
  | .fin p, q => .fin (p*q)

def mul : Num → Num → Num
  | .fin p, .fin q => .fin (p*q)
  | .inf a, .fin q | .fin q, .inf a => if q=0 then .nan else .inf (xor a (q<0))
  | .inf a, .inf b => .inf (xor a b)
  | _, _ => .nan

/-- `Math.floor(x)`. -/
def floor : Num → Num
  | .fin q => .fin ⌊q⌋
  | x => x

/-- `Math.ceil(x)`. -/
def ceil : Num → Num
  | .fin q => .fin ⌈q⌉
  | x => x

/-- `Number.isFinite(x)`. -/
def isFinite : Num → Bool
  | .fin _ => true
  | _ => false

/-- `x.toFixed(d)`, short of `10^21`. -/
def toFixed (x : Num) (d : ℕ) : String :=
  match x with
  | .fin q => Js.toFixed q d
  | x => x.text

theorem lt_trans {a b c : Num} (h : a.lt b) (h' : b.lt c) : a.lt c := by
  cases a <;> cases b <;> cases c <;> simp only [lt] at h h' ⊢ <;> grind

/-- Two numbers are in order one way or the other. -/
theorem lt_of_lt_of_not_lt {a b c : Num} (h : a.lt b) (hc : c ≠ .nan) (h' : ¬c.lt b) : a.lt c := by
  cases a <;> cases b <;> cases c <;> simp only [lt] at h h' ⊢ <;> grind

theorem lt_of_not_lt_of_lt {a b c : Num} (h : b.lt a) (hc : c ≠ .nan) (h' : ¬b.lt c) : c.lt a := by
  cases a <;> cases b <;> cases c <;> simp only [lt] at h h' ⊢ <;> grind

theorem not_lt_nan (a : Num) : ¬a.lt .nan := by cases a <;> exact id

theorem not_nan_lt (a : Num) : ¬lt .nan a := by cases a <;> exact id

theorem not_inf_lt (a : Num) : ¬lt (.inf false) a := by cases a <;> simp [lt]

/-- A number below the smaller of two is below both. -/
theorem lt_min {a b c : Num} (h : a.lt (b.min c)) : a.lt b ∧ a.lt c := by
  unfold min at h
  split_ifs at h with hn hlt
  · exact absurd h (not_lt_nan a)
  · exact ⟨lt_trans h hlt,h⟩
  · exact ⟨h,lt_of_lt_of_not_lt h (fun hc => hn (.inr hc)) hlt⟩

/-- A number above the larger of two is above both. -/
theorem max_lt {a b c : Num} (h : (b.max c).lt a) : b.lt a ∧ c.lt a := by
  unfold max at h
  split_ifs at h with hn hlt
  · exact absurd h (not_nan_lt a)
  · exact ⟨lt_trans hlt h,h⟩
  · exact ⟨h,lt_of_not_lt_of_lt h (fun hc => hn (.inr hc)) hlt⟩

theorem isFinite_iff {x : Num} : x.isFinite=true ↔ ∃ q, x=.fin q := by
  cases x <;> simp [isFinite]

/-- A positive number some multiple of which keeps to a finite bound is finite. -/
theorem isFinite_of_not_lt_mul {n b d : Num} (hb : b.isFinite=true) (hn : n.isFinite=true)
    (hpos : lt (.fin 0) n) (hd : lt (.fin 0) d) (h : ¬b.lt (n.mul d)) : d.isFinite=true := by
  obtain ⟨q,rfl⟩ := isFinite_iff.mp hn
  obtain ⟨c,rfl⟩ := isFinite_iff.mp hb
  have hq : 0<q := hpos
  cases d with
  | fin d => rfl
  | nan => exact absurd hd id
  | inf neg =>
    have hneg : neg=false := hd
    subst hneg
    simp [mul,hq.ne',lt,hq.le] at h

theorem isFinite_of_div {a : Num} {c d : ℚ} (h : ((a.mul (.fin c)).div (.fin d)).isFinite=true) :
    a.isFinite=true := by
  cases a with
  | fin q => rfl
  | nan => cases h
  | inf neg =>
    simp only [mul] at h
    split at h <;> cases h

theorem isFinite_of_abs_sub {a b : Num} (h : (a.sub b).abs.isFinite=true) :
    a.isFinite=true ∧ b.isFinite=true := by
  cases a with
  | nan => cases b <;> cases h
  | inf a =>
    cases b with
    | inf b => cases a <;> cases b <;> cases h
    | nan | fin => cases h
  | fin p => cases b <;> first | exact ⟨rfl,rfl⟩ | cases h

theorem lt_max_of_lt_min {a b x : Num} (h : x.lt (a.min b)) : x.lt (a.max b) := by
  obtain ⟨h₁,h₂⟩ := lt_min h
  unfold max
  split_ifs with hn hl
  · rcases hn with rfl|rfl
    · exact absurd h₁ (not_lt_nan _)
    · exact absurd h₂ (not_lt_nan _)
  · exact h₂
  · exact h₁

theorem le_trans {a b c : Num} (h : a.le b) (h' : b.le c) : a.le c := by
  obtain hlt|⟨rfl,-⟩ := h
  · obtain hlt'|⟨rfl,-⟩ := h'
    · exact .inl (lt_trans hlt hlt')
    · exact .inl hlt
  · exact h'

theorem le_of_not_lt {a b : Num} (ha : a ≠ .nan) (hb : b ≠ .nan) (h : ¬b.lt a) : a.le b := by
  cases a <;> cases b <;> simp only [lt,le] at h ⊢ <;> grind

theorem not_lt_of_le {a b : Num} (h : a.le b) : ¬b.lt a := by
  cases a <;> cases b <;> simp only [lt,le] at h ⊢ <;> grind

theorem abs_of_not_lt {x : Num} (h : ¬x.lt (.fin 0)) : x.abs=x := by
  cases x with
  | nan => rfl
  | inf negative => cases negative <;> simp [lt,abs] at h ⊢
  | fin q => exact congrArg Num.fin (abs_of_nonneg (not_lt.mp h))

theorem abs_div_pos {x a : Num} (h : (Num.fin 0).lt a) : x.abs.div a=(x.div a).abs := by
  cases a with
  | nan => cases h
  | inf negative => cases x <;> simp [abs,div]
  | fin q =>
    have hq : 0<q := h
    cases x with
    | nan => rfl
    | inf negative => simp [abs,div,hq.le]
    | fin p => simp [abs,div,hq.ne',abs_div,abs_of_pos hq]

theorem abs_sub_swap (x y : Num) : (x.sub y).abs=(y.sub x).abs := by
  cases x with
  | nan => cases y <;> rfl
  | inf a =>
    cases y with
    | nan => rfl
    | inf b => cases a <;> cases b <;> rfl
    | fin q => rfl
  | fin p =>
    cases y with
    | nan => rfl
    | inf b => rfl
    | fin q => simp only [sub,neg,add,abs,← sub_eq_add_neg,abs_sub_comm p q]

theorem le_fin {x y : ℚ} (h : x ≤ y) : (fin x).le (.fin y) := by
  obtain hlt|rfl := lt_or_eq_of_le h
  · exact .inl hlt
  · exact .inr ⟨rfl,fun hx => by cases hx⟩

theorem le_of_fin {x y : ℚ} (h : (fin x).le (.fin y)) : x ≤ y := by
  rcases h with h | ⟨h,-⟩
  · exact le_of_lt h
  · exact (fin.inj h).le

theorem not_le_zero_of_pos {x : Num} (h : (fin 0).lt x) : ¬x.le (.fin 0) :=
  fun hle => not_lt_of_le hle h

theorem not_neg_of_le {x y a : Num} (h : x.le y) (ha : (fin 0).lt a) :
    ¬((y.sub x).div a).lt (.fin 0) := by
  cases a with
  | nan => cases ha
  | inf negative => cases x <;> cases y <;> grind [sub,neg,add,div,lt]
  | fin q =>
    have hq : 0<q := ha
    cases x with
    | nan => cases y <;> exact fun hlt => hlt
    | inf negative =>
      cases y with
      | nan => exact fun hlt => hlt
      | inf negative' =>
        cases negative <;> cases negative' <;> simp_all [le,lt,sub,neg,add,div,hq.le]
      | fin r => cases negative <;> simp_all [le,lt,sub,neg,add,div,hq.le]
    | fin p =>
      cases y with
      | nan => exact fun hlt => hlt
      | inf negative => cases negative <;> simp_all [le,lt,sub,neg,add,div,hq.le]
      | fin r =>
        have hr : p ≤ r := by
          obtain hlt|⟨heq,-⟩ := h
          · exact le_of_lt hlt
          · exact (fin.inj heq).le
        have hdiv : 0 ≤ (r-p)/q := div_nonneg (sub_nonneg.mpr hr) hq.le
        simpa [lt,sub,neg,add,div,hq.ne',← sub_eq_add_neg] using hdiv

end Js.Num
