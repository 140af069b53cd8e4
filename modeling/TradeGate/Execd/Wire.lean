import TradeGate.Canonical.Agree
import TradeGate.Model.Contracts

/-! The parameters of an intent always have a canonical JSON: their only numbers are integers. -/
namespace TradeGate.Execd
open TradeGate.Canonical.Tree

namespace Wire

/-- Every number is an integer. -/
def Whole (t : Doc) : Prop := ∀ x ∈ t.numbers, (Canonical.Execd.check x).isSome

/-- Every number of the members is an integer. -/
def WholeMembers (ms : List (String × Doc)) : Prop :=
  ∀ x ∈ numbersMembers ms, (Canonical.Execd.check x).isSome

theorem whole_text (s : String) : Whole (text s) := by simp [Whole,text,numbers]

theorem whole_bool (b : Bool) : Whole (.bool b) := by simp [Whole,numbers]

theorem whole_nat (n : ℕ) : Whole (nat n) := by simp [Whole,nat,numbers,Canonical.Execd.check]

theorem whole_obj {ms : List (String × Doc)} (h : WholeMembers ms) : Whole (.obj ms) := by
  unfold Whole
  rw [numbers]
  exact h

theorem whole_arr {α : Type} {f : α → Doc} (h : ∀ a, Whole (f a)) (as : List α) :
    Whole (.arr (as.map f)) := by
  unfold Whole
  rw [numbers]
  induction as with
  | nil => simp [numbersAll]
  | cons a as ih =>
    rw [List.map_cons,numbersAll,List.forall_mem_append]
    exact ⟨h a,ih⟩

theorem WholeMembers.append {ms ns : List (String × Doc)} (h : WholeMembers ms) (h' : WholeMembers ns) :
    WholeMembers (ms++ns) := by
  induction ms with
  | nil => exact h'
  | cons m ms ih =>
    unfold WholeMembers at h ⊢
    rw [numbersMembers,List.forall_mem_append] at h
    rw [List.cons_append,numbersMembers,List.forall_mem_append]
    exact ⟨h.1,ih h.2⟩

theorem whole_field {k : String} {x : Doc} (h : Whole x) : WholeMembers (field k x) := by
  unfold WholeMembers field
  rw [numbersMembers,numbersMembers,List.append_nil]
  exact h

theorem whole_optional {α : Type} {k : String} {x : Option α} {f : α → Doc} (h : ∀ a, Whole (f a)) :
    WholeMembers (optional k x f) := by
  cases x with
  | none => simp [WholeMembers,optional,numbersMembers]
  | some a => exact whole_field (h a)

theorem whole_size (s : SizeSpec) : Whole (size s) := by
  cases s <;>
    exact whole_obj ((whole_field (whole_text _)).append (whole_field (whole_text _)))

theorem whole_entry (e : EntrySpec) : Whole (entry e) := by
  cases e with
  | market slippage => exact whole_obj ((whole_field (whole_text _)).append (whole_optional whole_nat))
  | limit price tif postOnly =>
    exact whole_obj ((((whole_field (whole_text _)).append (whole_field (whole_text _))).append
      (whole_optional fun _ => whole_text _)).append (whole_optional whole_bool))

theorem whole_stop (r : StopRef) : Whole (stop r) :=
  whole_obj ((whole_field (whole_text _)).append (whole_field (whole_text _)))

theorem whole_takeProfit (t : TakeProfitSpec) : Whole (takeProfit t) :=
  whole_obj (((whole_field (whole_text _)).append (whole_field (whole_text _))).append
    (whole_optional fun _ => whole_text _))

theorem whole_orderRef (r : OrderRef) : Whole (orderRef r) :=
  whole_obj ((whole_optional whole_text).append (whole_optional whole_text))

theorem whole_params (p : IntentParams) : Whole (params p) := by
  cases p with
  | «open» p =>
    refine whole_obj ?_
    repeat' apply WholeMembers.append
    · exact whole_field (whole_text _)
    · exact whole_field (whole_text _)
    · exact whole_field (whole_text _)
    · exact whole_field (whole_text _)
    · exact whole_optional fun _ => whole_text _
    · exact whole_field (whole_size _)
    · exact whole_field (whole_entry _)
    · exact whole_field (whole_stop _)
    · exact whole_optional (whole_arr whole_takeProfit)
    · exact whole_optional whole_nat
    · exact whole_optional fun _ => whole_text _
    · exact whole_optional whole_text
    · exact whole_field (whole_arr whole_text _)
    · exact whole_optional whole_text
  | close p =>
    refine whole_obj ?_
    repeat' apply WholeMembers.append
    · exact whole_field (whole_text _)
    · exact whole_field (whole_text _)
    · exact whole_field (whole_text _)
    · exact whole_optional fun _ => whole_text _
    · exact whole_field (whole_text _)
    · exact whole_field (whole_entry _)
    · exact whole_optional whole_text
    · exact whole_optional (whole_arr whole_text)
  | cancelOrder p =>
    refine whole_obj ?_
    repeat' apply WholeMembers.append
    · exact whole_field (whole_text _)
    · exact whole_field (whole_text _)
    · exact whole_field (whole_text _)
    · exact whole_field (whole_orderRef _)
    · exact whole_optional whole_text
  | protect p =>
    refine whole_obj ?_
    repeat' apply WholeMembers.append
    · exact whole_field (whole_text _)
    · exact whole_field (whole_text _)
    · exact whole_field (whole_text _)
    · exact whole_optional fun _ => whole_text _
    · exact whole_optional whole_stop
    · exact whole_optional (whole_arr whole_takeProfit)
    · exact whole_field (whole_bool _)
    · exact whole_optional whole_text
  | transfer p =>
    refine whole_obj ?_
    repeat' apply WholeMembers.append
    · exact whole_field (whole_text _)
    · exact whole_field (whole_text _)
    · exact whole_field (whole_text _)
    · exact whole_field (whole_text _)
    · exact whole_field (whole_text _)
    · exact whole_field (whole_text _)
    · exact whole_field (whole_text _)
    · exact whole_optional whole_text

end Wire

/-- The parameters of an intent have a canonical JSON. -/
theorem canonicalJsonOf_isSome (p : IntentParams) : (canonicalJsonOf p).isSome := by
  unfold canonicalJsonOf
  rw [Option.isSome_map,strip_eq Canonical.Execd.strips,Option.isSome_map,isSome_mapNumbers]
  exact Wire.whole_params p

end TradeGate.Execd
