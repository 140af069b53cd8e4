import Mathlib.Data.List.TakeWhile
import TradeGate.Frames.Lines
import TradeGate.Model.Checklist

/-! What the coarse picture of a symbol says of its checklist. -/
namespace TradeGate.Checklist
open Js Heartbeat

/-- What a scan looks at. -/
structure Picture where
  base : TfFeatures
  h1 : Option TfFeatures
  h4 : Option TfFeatures
  marketStateId : Option String
  session : String
  regime : Option String
  tf_read : (tfToMs base.tf).isSome
  h1_tf : ∀ f ∈ h1, f.tf="1h"
  h4_tf : ∀ f ∈ h4, f.tf="4h"

namespace Picture

def features (p : Picture) : List TfFeatures := p.base::(p.h1.toList++p.h4.toList)

def fingerprint (p : Picture) : String :=
  heartbeatFingerprint p.base.toTfFeatures (p.h1.map TfFeatures.toTfFeatures) p.marketStateId p.session p.regime

/-- The checklist with the default thresholds. -/
def checklist (p : Picture) (klines : Option (List (Kline Js.Num))) : ScanChecklist :=
  checklistOf p.base p.features klines {}

theorem scanChecklist_eq (p : Picture) (klines : Option (List (Kline Js.Num))) :
    scanChecklist p.features klines {}=some (p.checklist klines) := rfl

end Picture

/-! The parts of the checklist. -/

/-- No further from the level of the direction than one may chase. -/
def inRange (f : TfFeatures) (dir : Direction) : Bool :=
  let level := match dir with
    | .long => f.swingHigh20
    | .short => f.swingLow20
  decide ((Js.Num.fin 0).lt f.atr14) && decide (((f.lastClose.sub level).abs.div f.atr14).le (.fin 1.5))

/-- The last bar closed beyond the level of the bars before it. -/
def broke (f : TfFeatures) : Direction → Bool
  | .long => (f.swingHigh20Prev.getD f.swingHigh20).lt f.lastClose
  | .short => f.lastClose.lt (f.swingLow20Prev.getD f.swingLow20)

/-- The average range in percent of the close. -/
def atrPct (f : TfFeatures) : Option Js.Num :=
  if (Js.Num.fin 0).lt f.lastClose then some ((f.atr14.div f.lastClose).mul (.fin 100)) else none

section
variable (p : Picture) (klines : Option (List (Kline Js.Num)))

theorem checklist_atrOk : (p.checklist klines).atrOk =
    (atrPct p.base).any fun pct => (Js.Num.fin (atrPctFloor p.base.tf)).le pct := rfl

theorem checklist_trendAgree : (p.checklist klines).trendAgree=trendAgreement p.features := rfl

theorem checklist_withinChase : (p.checklist klines).withinChase =
    (trendAgreement p.features).any (inRange p.base) := by
  unfold Picture.checklist checklistOf inRange
  dsimp only
  cases trendAgreement p.features with
  | none => rfl
  | some dir =>
    by_cases h : (Js.Num.fin 0).lt p.base.atr14
    · cases dir <;> simp [h]
    · cases dir <;> simp [h]

theorem checklist_watchEligible : (p.checklist klines).watchEligible =
    (trendAgreement p.features).any fun dir => inRange p.base dir &&
      !(broke p.base dir && decide ((Js.Num.fin 1).le p.base.volRatio20)) := by
  have hw := checklist_withinChase p klines
  have hone : ¬(Js.Num.fin 1).lt ((Js.Num.fin 1).max (Js.Num.fin 1).floor) := by decide
  unfold Picture.checklist checklistOf at hw ⊢
  dsimp only [Option.getD_none] at hw ⊢
  rw [hw]
  cases trendAgreement p.features with
  | none => rfl
  | some dir => cases dir <;> simp [broke,hone]

end

/-! The parts of the picture. -/
section
variable {f g : Heartbeat.TfFeatures}

theorem trend_mem (f : Heartbeat.TfFeatures) : trend f ∈ ["up","dn","flat"] := by
  unfold trend
  split
  · simp
  · split <;> simp

theorem above_mem (f : Heartbeat.TfFeatures) : above f ∈ ["a","b"] := by
  unfold above
  split <;> simp

theorem atrBucket_mem (f : Heartbeat.TfFeatures) : atrBucket f ∈ ["atr0","atr1","atr2"] := by
  unfold atrBucket
  dsimp only
  generalize (if (Js.Num.fin 0).lt f.lastClose then (f.atr14.div f.lastClose).mul (.fin 100) else .fin 0)=pct
  split
  · simp
  · split <;> simp

theorem rangeBucket_mem (f : Heartbeat.TfFeatures) :
    rangeBucket f ∈ ["r?","r>hi","r<lo","r~hi","r~lo","rmid"] := by
  unfold rangeBucket
  dsimp only
  repeat' split
  all_goals simp

theorem volBucket_mem (f : Heartbeat.TfFeatures) : volBucket f ∈ ["v2","v1","v0"] := by
  unfold volBucket
  split
  · simp
  · split <;> simp

/-- The part of the picture that is about a timeframe's averages. -/
def side (f : Heartbeat.TfFeatures) : String := trend f ++ above f

theorem side_mem (f : Heartbeat.TfFeatures) : side f ∈ ["upa","upb","dna","dnb","flata","flatb"] := by
  have ht := trend_mem f
  have ha := above_mem f
  unfold side
  generalize trend f=t at ht
  generalize above f=a at ha
  simp only [List.mem_cons,List.not_mem_nil,or_false] at ht ha
  obtain rfl|rfl|rfl := ht <;> obtain rfl|rfl := ha <;> decide

theorem trend_of_side (h : side f=side g) : trend f=trend g := by
  have hf := trend_mem f
  have hg := trend_mem g
  have haf := above_mem f
  have hag := above_mem g
  unfold side at h
  generalize trend f=t at hf h ⊢
  generalize trend g=u at hg h ⊢
  generalize above f=a at haf h
  generalize above g=b at hag h
  revert h
  simp only [List.mem_cons,List.not_mem_nil,or_false] at hf hg haf hag
  obtain rfl|rfl|rfl := hf <;> obtain rfl|rfl|rfl := hg <;> obtain rfl|rfl := haf <;>
    obtain rfl|rfl := hag <;> decide

end

/-- A text of letters and signs that are no separators. -/
def Plain (s : String) : Prop := ':' ∉ s.toList ∧ '|' ∉ s.toList

instance (s : String) : Decidable (Plain s) := inferInstanceAs (Decidable (_ ∧ _))

theorem plain_of_tfToMs {tf : String} (h : (tfToMs tf).isSome) : Plain tf := by
  have hdigits : ∀ c ∈ tf.toList.takeWhile Char.isDigit, c.isDigit=true := fun c hc =>
    List.mem_takeWhile_imp hc
  have hsplit := List.takeWhile_append_dropWhile (p := Char.isDigit) (l := tf.toList)
  have hunit : ∀ c ∈ tf.toList.dropWhile Char.isDigit, c ∈ [ 'm','h','d'] := by
    unfold tfToMs at h
    dsimp only at h
    split at h
    · cases h
    · split at h
      next hd => simp [hd]
      next hd => simp [hd]
      next hd => simp [hd]
      next => cases h
  have hmem : ∀ c ∈ tf.toList, c.isDigit=true ∨ c ∈ [ 'm','h','d'] := by
    intro c hc
    rw [← hsplit,List.mem_append] at hc
    obtain hc|hc := hc
    · exact .inl (hdigits c hc)
    · exact .inr (hunit c hc)
  constructor
  · intro hc
    have := hmem _ hc
    revert this
    decide
  · intro hc
    have := hmem _ hc
    revert this
    decide

/-! Equal pictures. -/
section
variable {p q : Picture}

theorem intercalate_five (sep a b c d e : String) :
    sep.intercalate [a,b,c,d,e]=a ++ sep ++ b ++ sep ++ c ++ sep ++ d ++ sep ++ e := rfl

/-- The fingerprint up to the separator behind the averages of 1h. -/
theorem fingerprint_toList (p : Picture) : ∃ rest, p.fingerprint.toList =
    p.base.tf.toList ++ ':'::((side p.base.toTfFeatures).toList ++ ':'::((atrBucket p.base.toTfFeatures).toList ++
      ':'::((rangeBucket p.base.toTfFeatures).toList ++ ':'::((volBucket p.base.toTfFeatures).toList ++
        '|':: '1':: 'h':: ':'::((p.h1.elim "?" fun f => side f.toTfFeatures).toList ++ '|'::rest))))) := by
  refine ⟨(("ms:" ++ p.marketStateId.getD "-") ++ "|" ++ ("s:" ++ p.session) ++ "|" ++
    ("rg:" ++ p.regime.getD "-")).toList,?_⟩
  unfold Picture.fingerprint heartbeatFingerprint side
  rw [intercalate_five]
  cases p.h1 <;> simp

/-- Pictures with one fingerprint agree in each part of it that is of features. -/
structure Alike (p q : Picture) : Prop where
  tf : p.base.tf=q.base.tf
  trend : trend p.base.toTfFeatures=trend q.base.toTfFeatures
  atr : atrBucket p.base.toTfFeatures=atrBucket q.base.toTfFeatures
  range : rangeBucket p.base.toTfFeatures=rangeBucket q.base.toTfFeatures
  vol : volBucket p.base.toTfFeatures=volBucket q.base.toTfFeatures
  h1 : p.h1.map (fun f => Heartbeat.trend f.toTfFeatures)=q.h1.map fun f => Heartbeat.trend f.toTfFeatures

theorem side_plain (f : Heartbeat.TfFeatures) : Plain (side f) :=
  (by decide : ∀ s ∈ ["upa","upb","dna","dnb","flata","flatb"], Plain s) _ (side_mem f)

theorem side_ne_unknown (f : Heartbeat.TfFeatures) : side f ≠ "?" :=
  (by decide : ∀ s ∈ ["upa","upb","dna","dnb","flata","flatb"], s ≠ "?") _ (side_mem f)

theorem elim_plain (h1 : Option TfFeatures) : Plain (h1.elim "?" fun f => side f.toTfFeatures) := by
  cases h1 with
  | none => decide
  | some f => exact side_plain _

theorem alike_of_fingerprint (h : p.fingerprint=q.fingerprint) : Alike p q := by
  obtain ⟨rest,hp⟩ := fingerprint_toList p
  obtain ⟨rest',hq⟩ := fingerprint_toList q
  have hatr : ∀ f, Plain (atrBucket f) := fun f =>
    (by decide : ∀ s ∈ ["atr0","atr1","atr2"], Plain s) _ (atrBucket_mem f)
  have hrange : ∀ f, Plain (rangeBucket f) := fun f =>
    (by decide : ∀ s ∈ ["r?","r>hi","r<lo","r~hi","r~lo","rmid"], Plain s) _ (rangeBucket_mem f)
  have hvol : ∀ f, Plain (volBucket f) := fun f =>
    (by decide : ∀ s ∈ ["v2","v1","v0"], Plain s) _ (volBucket_mem f)
  have heq := hp.symm.trans ((congrArg String.toList h).trans hq)
  obtain ⟨htf,heq⟩ := Frames.line_inj (plain_of_tfToMs p.tf_read).1 (plain_of_tfToMs q.tf_read).1 heq
  obtain ⟨hside,heq⟩ := Frames.line_inj (side_plain _).1 (side_plain _).1 heq
  obtain ⟨hatr,heq⟩ := Frames.line_inj (hatr _).1 (hatr _).1 heq
  obtain ⟨hrange,heq⟩ := Frames.line_inj (hrange _).1 (hrange _).1 heq
  obtain ⟨hvol,heq⟩ := Frames.line_inj (hvol _).2 (hvol _).2 heq
  rw [List.cons.injEq,List.cons.injEq,List.cons.injEq] at heq
  have hh1 := String.toList_inj.mp (Frames.line_inj (elim_plain _).2 (elim_plain _).2 heq.2.2.2).1
  refine ⟨String.toList_inj.mp htf,trend_of_side (String.toList_inj.mp hside),String.toList_inj.mp hatr,
    String.toList_inj.mp hrange,String.toList_inj.mp hvol,?_⟩
  cases hp : p.h1 with
  | none =>
    cases hq : q.h1 with
    | none => rfl
    | some g =>
      rw [hp,hq] at hh1
      exact absurd hh1.symm (side_ne_unknown _)
  | some f =>
    cases hq : q.h1 with
    | none =>
      rw [hp,hq] at hh1
      exact absurd hh1 (side_ne_unknown _)
    | some g =>
      rw [hp,hq] at hh1
      exact congrArg some (trend_of_side hh1)

end

/-! What a bucket says of the checklist. -/
section
variable {f g : TfFeatures}

theorem tfDirection_some (f : TfFeatures) : tfDirection (some f) =
    if trend f.toTfFeatures="up" then some .long else if trend f.toTfFeatures="dn" then some .short
    else none := by
  unfold tfDirection trend
  rw [Option.bind_some]
  by_cases hup : f.ema50.lt f.ema20
  · rw [if_pos hup,if_pos hup,if_pos rfl]
  · rw [if_neg hup,if_neg hup]
    by_cases hdown : f.ema20.lt f.ema50
    · rw [if_pos hdown,if_pos hdown,if_neg (by decide),if_pos rfl]
    · rw [if_neg hdown,if_neg hdown,if_neg (by decide),if_neg (by decide)]

/-- The volume of at least one average is told from less. -/
theorem one_le_vol (f : TfFeatures) :
    (Js.Num.fin 1).le f.volRatio20 ↔ volBucket f.toTfFeatures ≠ "v0" := by
  have hle : (Js.Num.fin 1).le (.fin 1.5) := by decide +kernel
  unfold volBucket
  split
  next h2 => exact iff_of_true (Js.Num.le_trans hle h2) (by decide)
  next =>
    split
    next h1 => exact iff_of_true h1 (by decide)
    next h1 => exact iff_of_false h1 (by decide)

/-- The bucket of the range is on one side of the floor. -/
def OneSided (f : TfFeatures) (floor : ℚ) : Prop :=
  atrBucket f.toTfFeatures="atr0" ∧ 0.15 ≤ floor ∨
    atrBucket f.toTfFeatures="atr1" ∧ (floor ≤ 0.15 ∨ 0.4 ≤ floor) ∨
    atrBucket f.toTfFeatures="atr2" ∧ floor ≤ 0.4 ∧ atrPct f ≠ some .nan

instance (f : TfFeatures) (floor : ℚ) : Decidable (OneSided f floor) :=
  inferInstanceAs (Decidable (_ ∧ _ ∨ _ ∧ (_ ∨ _) ∨ _ ∧ _ ∧ ¬_))

/-- The two extremes are on their sides of the close, and where the level is the low, the bucket is not
that of the high. -/
def Ranged (f : TfFeatures) : Direction → Prop
  | .long => rangeBucket f.toTfFeatures ∉ ["r>hi","r<lo"]
  | .short => rangeBucket f.toTfFeatures ∉ ["r>hi","r<lo","r~hi"]

theorem rangeBucket_of_not_pos (h : ¬(Js.Num.fin 0).lt f.atr14) :
    rangeBucket f.toTfFeatures="r?" ∨ rangeBucket f.toTfFeatures="rmid" := by
  unfold rangeBucket
  dsimp only
  by_cases hle : f.atr14.le (.fin 0)
  · exact .inl (if_pos hle)
  · have hnan : f.atr14=.nan := by
      by_contra hne
      exact hle (Js.Num.le_of_not_lt hne (by decide) h)
    have hdiv : ∀ x : Js.Num, x.div .nan=.nan := fun x => by cases x <;> rfl
    rw [if_neg hle,hnan,hdiv,hdiv]
    exact .inr (by decide)

theorem inRange_of_not_pos (h : ¬(Js.Num.fin 0).lt f.atr14) (dir : Direction) : inRange f dir=false := by
  unfold inRange
  rw [decide_eq_false h,Bool.false_and]

theorem inRange_long (h : Ranged f .long) :
    inRange f .long=decide (rangeBucket f.toTfFeatures="r~hi") := by
  by_cases hpos : (Js.Num.fin 0).lt f.atr14
  · unfold Ranged at h
    unfold inRange
    dsimp only
    rw [Js.Num.abs_sub_swap,Js.Num.abs_div_pos hpos,decide_eq_true hpos,Bool.true_and]
    unfold rangeBucket at h ⊢
    dsimp only at h ⊢
    rw [if_neg (Js.Num.not_le_zero_of_pos hpos)] at h ⊢
    generalize (f.swingHigh20.sub f.lastClose).div f.atr14=toHigh at h ⊢
    generalize (f.lastClose.sub f.swingLow20).div f.atr14=toLow at h ⊢
    by_cases hhigh : toHigh.lt (.fin 0)
    · simp [hhigh] at h
    · rw [if_neg hhigh] at h ⊢
      rw [Js.Num.abs_of_not_lt hhigh]
      by_cases hlow : toLow.lt (.fin 0)
      · simp [hlow] at h
      · rw [if_neg hlow]
        by_cases hnear : toHigh.le (.fin 1.5)
        · rw [if_pos hnear,decide_eq_true hnear,decide_eq_true rfl]
        · rw [if_neg hnear,decide_eq_false hnear]
          split <;> decide
  · rw [inRange_of_not_pos hpos]
    obtain hb|hb := rangeBucket_of_not_pos hpos <;> rw [hb] <;> decide

theorem inRange_short (h : Ranged f .short) :
    inRange f .short=decide (rangeBucket f.toTfFeatures="r~lo") := by
  by_cases hpos : (Js.Num.fin 0).lt f.atr14
  · unfold Ranged at h
    unfold inRange
    dsimp only
    rw [Js.Num.abs_div_pos hpos,decide_eq_true hpos,Bool.true_and]
    unfold rangeBucket at h ⊢
    dsimp only at h ⊢
    rw [if_neg (Js.Num.not_le_zero_of_pos hpos)] at h ⊢
    generalize (f.swingHigh20.sub f.lastClose).div f.atr14=toHigh at h ⊢
    generalize (f.lastClose.sub f.swingLow20).div f.atr14=toLow at h ⊢
    by_cases hhigh : toHigh.lt (.fin 0)
    · simp [hhigh] at h
    · rw [if_neg hhigh] at h ⊢
      by_cases hlow : toLow.lt (.fin 0)
      · simp [hlow] at h
      · rw [if_neg hlow] at h ⊢
        rw [Js.Num.abs_of_not_lt hlow]
        by_cases hnear : toHigh.le (.fin 1.5)
        · simp [hnear] at h
        · rw [if_neg hnear]
          by_cases hnear' : toLow.le (.fin 1.5)
          · rw [if_pos hnear',decide_eq_true hnear',decide_eq_true rfl]
          · rw [if_neg hnear',decide_eq_false hnear']
            decide
  · rw [inRange_of_not_pos hpos]
    obtain hb|hb := rangeBucket_of_not_pos hpos <;> rw [hb] <;> decide

/-- In a direction with its extremes in place, equal buckets are equal ranges. -/
theorem inRange_congr {dir : Direction} (h : rangeBucket f.toTfFeatures=rangeBucket g.toTfFeatures)
    (hr : Ranged f dir) : inRange f dir=inRange g dir := by
  cases dir with
  | long =>
    have hg : Ranged g .long := by
      unfold Ranged at hr ⊢
      rwa [← h]
    rw [inRange_long hr,inRange_long hg,h]
  | short =>
    have hg : Ranged g .short := by
      unfold Ranged at hr ⊢
      rwa [← h]
    rw [inRange_short hr,inRange_short hg,h]

/-- Where the close lies between the extremes, as it does when its bar is one of the twenty, only the
bucket of the high hides a level. -/
theorem ranged_of_between (hhigh : f.lastClose.le f.swingHigh20) (hlow : f.swingLow20.le f.lastClose) :
    Ranged f .long ∧ (rangeBucket f.toTfFeatures ≠ "r~hi" → Ranged f .short) := by
  have hlong : Ranged f .long := by
    unfold Ranged
    by_cases hpos : (Js.Num.fin 0).lt f.atr14
    · unfold rangeBucket
      dsimp only
      rw [if_neg (Js.Num.not_le_zero_of_pos hpos),if_neg (Js.Num.not_neg_of_le hhigh hpos),
        if_neg (Js.Num.not_neg_of_le hlow hpos)]
      split
      · decide
      · split <;> decide
    · obtain hb|hb := rangeBucket_of_not_pos hpos <;> rw [hb] <;> decide
  refine ⟨hlong,fun hnear => ?_⟩
  unfold Ranged at hlong ⊢
  simp only [List.mem_cons,List.not_mem_nil,or_false,not_or] at hlong ⊢
  exact ⟨hlong.1,hlong.2,hnear⟩

/-- Which side of the floor a percentage is on, by the bucket. -/
def aboveFloor (bucket : String) (floor : ℚ) : Bool :=
  match bucket with
  | "atr0" => false
  | "atr1" => decide (floor ≤ 0.15)
  | _ => true

theorem atrPct_bucket (f : TfFeatures) : atrBucket f.toTfFeatures =
    if ((atrPct f).getD (.fin 0)).lt (.fin 0.15) then "atr0"
    else if ((atrPct f).getD (.fin 0)).lt (.fin 0.4) then "atr1" else "atr2" := by
  unfold atrBucket atrPct
  by_cases h : (Js.Num.fin 0).lt f.lastClose
  · simp only [if_pos h,Option.getD_some]
  · simp only [if_neg h,Option.getD_none]

/-- The verdict on the average range is the bucket's, where the bucket does not straddle the floor. -/
theorem atrOk_of_oneSided {floor : ℚ} (h : OneSided f floor) :
    ((atrPct f).any fun pct => (Js.Num.fin floor).le pct)=aboveFloor (atrBucket f.toTfFeatures) floor := by
  unfold OneSided at h
  have hb := atrPct_bucket f
  cases hp : atrPct f with
  | none =>
    rw [hp] at hb
    have hzero : atrBucket f.toTfFeatures="atr0" := hb.trans (if_pos (show (0 : ℚ)<0.15 by norm_num))
    rw [hzero]
    rfl
  | some pct =>
    rw [hp,Option.getD_some] at hb
    rw [Option.any_some]
    by_cases h0 : pct.lt (.fin 0.15)
    · rw [if_pos h0] at hb
      rw [hb] at h ⊢
      have hfloor : 0.15 ≤ floor := by simpa using h
      refine decide_eq_false fun hle => Js.Num.not_lt_of_le hle ?_
      cases pct with
      | nan => cases h0
      | inf negative => exact h0
      | fin x =>
        have hx : x<0.15 := h0
        exact lt_of_lt_of_le hx hfloor
    · rw [if_neg h0] at hb
      by_cases h1 : pct.lt (.fin 0.4)
      · rw [if_pos h1] at hb
        rw [hb] at h ⊢
        have hfloor : floor ≤ 0.15 ∨ 0.4 ≤ floor := by simpa using h
        have hx : ∃ x, pct=.fin x ∧ ¬x<0.15 ∧ x<0.4 := by
          cases pct with
          | nan => cases h1
          | inf negative => exact absurd h1 h0
          | fin x => exact ⟨x,rfl,h0,h1⟩
        obtain ⟨x,rfl,hx0,hx1⟩ := hx
        change decide _=decide _
        rw [decide_eq_decide]
        obtain hlow|hhigh := hfloor
        · exact iff_of_true (Js.Num.le_fin (hlow.trans (not_lt.mp hx0))) hlow
        · refine iff_of_false (fun hle => Js.Num.not_lt_of_le hle (lt_of_lt_of_le hx1 hhigh : x<floor)) ?_
          norm_num at hhigh ⊢
          linarith
      · rw [if_neg h1] at hb
        rw [hb] at h ⊢
        obtain ⟨hfloor,hnan⟩ : floor ≤ 0.4 ∧ atrPct f ≠ some .nan := by simpa using h
        rw [hp] at hnan
        refine decide_eq_true (Js.Num.le_trans (Js.Num.le_fin hfloor) (Js.Num.le_of_not_lt (by decide) ?_ h1))
        exact fun hpct => hnan (congrArg some hpct)

end

/-! Pictures that look the same. -/
namespace Picture

/-- The direction of a timeframe of the picture. -/
def direction (p : Picture) (tf : String) : Option Direction := tfDirection (byTf p.features tf)

theorem byTf_h1 (p : Picture) : byTf p.features "1h"=if p.base.tf="1h" then some p.base else p.h1 := by
  have h4 : p.h4.toList.find? (fun f => f.tf="1h")=none := by
    cases h : p.h4 with
    | none => rfl
    | some f => simp [p.h4_tf f h]
  unfold byTf features
  rw [List.find?_cons]
  by_cases hb : p.base.tf="1h"
  · simp [hb]
  · rw [decide_eq_false hb,if_neg hb,List.find?_append,h4,Option.or_none]
    cases h : p.h1 with
    | none => rfl
    | some f => simp [p.h1_tf f h]

theorem byTf_base (p : Picture) : byTf p.features p.base.tf=some p.base := by
  unfold byTf features
  simp

theorem direction_h1 {p q : Picture} (h : Alike p q) : p.direction "1h"=q.direction "1h" := by
  unfold direction
  rw [byTf_h1,byTf_h1,← h.tf]
  by_cases hb : p.base.tf="1h"
  · rw [if_pos hb,if_pos hb,tfDirection_some,tfDirection_some,h.trend]
  · rw [if_neg hb,if_neg hb]
    have h1 := h.h1
    cases hp : p.h1 with
    | none =>
      cases hq : q.h1 with
      | none => rfl
      | some g =>
        rw [hp,hq] at h1
        cases h1
    | some f =>
      cases hq : q.h1 with
      | none =>
        rw [hp,hq] at h1
        cases h1
      | some g =>
        rw [hp,hq] at h1
        have htrend : trend f.toTfFeatures=trend g.toTfFeatures := Option.some.inj h1
        rw [tfDirection_some,tfDirection_some,htrend]

theorem direction_base {p q : Picture} (h : Alike p q) : p.direction p.base.tf=q.direction p.base.tf := by
  have hq : q.direction p.base.tf=q.direction q.base.tf := by rw [h.tf]
  unfold direction at hq ⊢
  rw [hq,byTf_base,byTf_base,tfDirection_some,tfDirection_some,h.trend]

theorem trendAgreement_congr {p q : Picture} (h : Alike p q) (h4 : p.direction "4h"=q.direction "4h") :
    trendAgreement p.features=trendAgreement q.features := by
  have h1 := direction_h1 h
  unfold direction at h1 h4
  unfold trendAgreement
  rw [h1,h4]

/-- What one fingerprint says of two checklists, with the default thresholds and whatever bars: the
agreement, where the direction of 4h is the same; the verdict on the average range, where its bucket
is on one side of the floor; the range of a direction whose level is told by the bucket; and the flag,
where also both or none have passed the level, or the volume confirms nothing. -/
theorem fingerprint_covers (p q : Picture) (klines klines' : Option (List (Kline Js.Num)))
    (h : p.fingerprint=q.fingerprint) :
    p.direction "1h"=q.direction "1h" ∧ p.direction p.base.tf=q.direction p.base.tf ∧
    (OneSided p.base (atrPctFloor p.base.tf) → OneSided q.base (atrPctFloor q.base.tf) →
      (p.checklist klines).atrOk=(q.checklist klines').atrOk) ∧
    (p.direction "4h"=q.direction "4h" →
      (p.checklist klines).trendAgree=(q.checklist klines').trendAgree ∧
      ((∀ dir ∈ (p.checklist klines).trendAgree, Ranged p.base dir) →
        (p.checklist klines).withinChase=(q.checklist klines').withinChase ∧
        ((∀ dir ∈ (p.checklist klines).trendAgree, broke p.base dir=broke q.base dir ∨
            ¬(Js.Num.fin 1).le p.base.volRatio20) →
          (p.checklist klines).watchEligible=(q.checklist klines').watchEligible))) := by
  have ha := alike_of_fingerprint h
  refine ⟨direction_h1 ha,direction_base ha,?_,?_⟩
  · intro hp hq
    rw [checklist_atrOk,checklist_atrOk,atrOk_of_oneSided hp,atrOk_of_oneSided hq,ha.atr,ha.tf]
  · intro h4
    have hagree := trendAgreement_congr ha h4
    refine ⟨hagree,fun hranged => ?_⟩
    rw [checklist_trendAgree] at hranged ⊢
    rw [checklist_withinChase,checklist_withinChase,checklist_watchEligible,checklist_watchEligible,
      ← hagree]
    cases hdir : trendAgreement p.features with
    | none => exact ⟨rfl,fun _ => rfl⟩
    | some dir =>
      have hrange := inRange_congr ha.range (hranged dir hdir)
      refine ⟨hrange,fun hbroke => ?_⟩
      have hvol : (Js.Num.fin 1).le p.base.volRatio20 ↔ (Js.Num.fin 1).le q.base.volRatio20 := by
        rw [one_le_vol,one_le_vol,ha.vol]
      rw [Option.any_some,Option.any_some,hrange,decide_eq_decide.mpr hvol]
      obtain hsame|hlow := hbroke dir rfl
      · rw [hsame]
      · rw [decide_eq_false (mt hvol.mpr hlow),Bool.and_false,Bool.and_false]

def sampleFeatures (tf : String) (ema50 atr14 low : ℚ) (highPrev : Option Js.Num) : TfFeatures where
  tf := tf
  lastClose := .fin 100
  ema20 := .fin 99
  ema50 := .fin ema50
  atr14 := .fin atr14
  swingHigh20 := .fin 101
  swingLow20 := .fin low
  volRatio20 := .fin 1
  swingHigh20Prev := highPrev
  swingLow20Prev := none

/-- A picture by its timeframe and its averages of 1h and 4h. -/
def sample (base : TfFeatures) (h : (tfToMs base.tf).isSome) (h1 h4 : ℚ) : Picture where
  base := base
  h1 := some (sampleFeatures "1h" h1 1 96 none)
  h4 := some (sampleFeatures "4h" h4 1 96 none)
  marketStateId := none
  session := "asia"
  regime := none
  tf_read := h
  h1_tf f hf := by cases hf; rfl
  h4_tf f hf := by cases hf; rfl

theorem samples_read : (tfToMs "15m").isSome ∧ (tfToMs "5m").isSome := by decide +kernel

def quarter (ema50 low : ℚ) (highPrev : Option Js.Num) (h1 h4 : ℚ) : Picture :=
  sample (sampleFeatures "15m" ema50 1 low highPrev) samples_read.1 h1 h4

def five (atr14 : ℚ) : Picture := sample (sampleFeatures "5m" 98 atr14 96 none) samples_read.2 98 98

/-- Pictures with one fingerprint and different checklists: 4h turns; the average range passes the floor
of 5m; the low comes near while the high is near; the level of the bars before is passed. -/
theorem fingerprint_hides :
    ((quarter 98 96 none 98 98).fingerprint=(quarter 98 96 none 98 100).fingerprint ∧
      ((quarter 98 96 none 98 98).checklist none).trendAgree=some .long ∧
      ((quarter 98 96 none 98 100).checklist none).trendAgree=none) ∧
    ((five 0.05).fingerprint=(five 0.1).fingerprint ∧
      ((five 0.05).checklist none).atrOk=false ∧ ((five 0.1).checklist none).atrOk=true) ∧
    ((quarter 100 96 none 100 100).fingerprint=(quarter 100 99 none 100 100).fingerprint ∧
      ((quarter 100 96 none 100 100).checklist none).withinChase=false ∧
      ((quarter 100 99 none 100 100).checklist none).withinChase=true) ∧
    ((quarter 98 96 (some (.fin 101)) 98 98).fingerprint =
        (quarter 98 96 (some (.fin 99)) 98 98).fingerprint ∧
      ((quarter 98 96 (some (.fin 101)) 98 98).checklist none).watchEligible=true ∧
      ((quarter 98 96 (some (.fin 99)) 98 98).checklist none).watchEligible=false) := by
  decide +kernel

theorem fingerprint_covers_sample :
    ((quarter 98 96 none 98 98).checklist none).atrOk=((quarter 98 95 none 98 98).checklist none).atrOk :=
  (fingerprint_covers (quarter 98 96 none 98 98) (quarter 98 95 none 98 98) none none
    (by decide +kernel)).2.2.1 (by decide +kernel) (by decide +kernel)

end Picture
end TradeGate.Checklist
